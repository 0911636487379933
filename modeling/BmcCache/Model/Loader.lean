import BmcCache.Model.Kernel

/-!
# The loader

`bmc_user.c`: it loads the programs, fills the arrays for the tail calls, attaches the ingress filter to the
interfaces, and collects the statistics until a signal ends it. Each call into the kernel or into a library
that can fail is a step, and so is the death of the process.
-/

namespace BmcCache

/-- The programs of `bmc_kern.c`, each under the title of its section. -/
inductive BpfProg
  | xdp (prog : XdpProg)
  | txFilter
  | updateCache
  deriving DecidableEq, Repr

namespace XdpProg

/-- The index of the program in `map_progs_xdp` that the others call it under. -/
def tailCallIdx : XdpProg → Option ℕ
  | .rxFilter => none
  | .hashKeys => some 0
  | .preparePacket => some 1
  | .writeReply => some 2
  | .invalidateCache => some 3

end XdpProg

def bmcProgTcUpdateCache : ℕ := 0

namespace User

/-- `struct bpf_progs_desc`; the type of a program is that of its constructor. -/
structure BpfProgsDesc where
  prog : BpfProg
  pin : Bool
  mapProgIdx : Option ℕ
  deriving DecidableEq, Repr

def progs : List BpfProgsDesc :=
  [⟨.xdp .rxFilter, false, none⟩, ⟨.xdp .hashKeys, false, some 0⟩, ⟨.xdp .preparePacket, false, some 1⟩,
    ⟨.xdp .writeReply, false, some 2⟩, ⟨.xdp .invalidateCache, false, some 3⟩,
    ⟨.txFilter, true, none⟩, ⟨.updateCache, false, some bmcProgTcUpdateCache⟩]

/-- The sums that `write_stats_to_file` and `write_stat_line` build over the CPUs. -/
def aggregateStats (nrCpus : ℕ) (stats : ℕ → BmcStats) : BmcStats :=
  (List.range nrCpus).foldl (fun sum i =>
    { getRecvCount := sum.getRecvCount + (stats i).getRecvCount
      setRecvCount := sum.setRecvCount + (stats i).setRecvCount
      getRespCount := sum.getRespCount + (stats i).getRespCount
      hitMisprediction := sum.hitMisprediction + (stats i).hitMisprediction
      hitCount := sum.hitCount + (stats i).hitCount
      missCount := sum.missCount + (stats i).missCount
      updateCount := sum.updateCount + (stats i).updateCount
      invalidationCount := sum.invalidationCount + (stats i).invalidationCount }) ⟨0, 0, 0, 0, 0, 0, 0, 0⟩

inductive Phase
  /-- The calls up to `bpf_object__find_map_fd_by_name` for the two arrays. -/
  | load
  | progFd (i : ℕ)
  | update (i : ℕ)
  | pin (i : ℕ)
  | unpin (i : ℕ)
  /-- The descriptors of `map_stats` and of the main program. -/
  | mainFd
  | attach (i : ℕ)
  | sigprocmask
  | openInterval
  | wait
  | detach (i : ℕ)
  | exited (code : ℤ)
  | killed
  deriving DecidableEq, Repr

def Phase.running : Phase → Bool
  | .exited _ | .killed => false
  | _ => true

inductive Signal
  | int
  | term
  | alrm
  | usr1
  deriving DecidableEq, Repr

inductive Call
  | ok
  | fail
  /-- `bpf_program__pin_instance` fails with `EEXIST`. -/
  | eexist
  /-- `sigwait` returns the signal; whether the file for the statistics can be written. -/
  | signal (sig : Signal) (written : Bool)
  /-- A signal that is not blocked ends the process, or `assert` does; up to `sigprocmask` none is blocked. -/
  | killed
  deriving DecidableEq, Repr

/-- The command line. -/
structure Options where
  statsPollCount : ℕ
  interfaces : List ℕ

/-- The loader with what it has changed in the kernel; `ret` and `curPollCount` are variables of `main`. -/
structure Loader where
  phase : Phase
  progsXdp : ℕ → Option BpfProg
  progsTc : ℕ → Option BpfProg
  pinned : BpfProg → Bool
  attached : ℕ → Bool
  ret : ℤ
  curPollCount : ℕ
  /-- The lines of `STATS_INTERVAL_PATH`. -/
  lines : ℕ

namespace Loader

/-- `pinned` are the programs that an earlier loader has left behind. -/
def init (pinned : BpfProg → Bool) : Loader :=
  ⟨.load, fun _ => none, fun _ => none, pinned, fun _ => false, 0, 0, 0⟩

/-- The end of the loop body for program `i`. -/
def nextProg (i : ℕ) : Phase := if i + 1 < progs.length then .progFd (i + 1) else .mainFd

/-- Program `i` is in its array, and pinned if it has to be. -/
def afterUpdate (i : ℕ) (d : BpfProgsDesc) : Phase := if d.pin then .pin i else nextProg i

def updateElem (s : Loader) (d : BpfProgsDesc) (idx : ℕ) : Loader :=
  match d.prog with
  | .xdp _ => { s with progsXdp := Function.update s.progsXdp idx (some d.prog) }
  | _ => { s with progsTc := Function.update s.progsTc idx (some d.prog) }

def nextInterface (o : Options) (i : ℕ) : Phase := if i < o.interfaces.length then .attach i else .sigprocmask

def nextDetach (o : Options) (ret : ℤ) (i : ℕ) : Phase :=
  if i < o.interfaces.length then .detach i else .exited ret

/-- The result of `write_stats_to_file`. -/
def writeStats (written : Bool) : ℤ := if written then 0 else -1

/-- The body of the signal loop. -/
def handle (o : Options) (s : Loader) (written : Bool) : Signal → Loader
  | .int => { s with ret := writeStats written, phase := nextDetach o (writeStats written) 0 }
  | .term => { s with ret := writeStats written, phase := nextDetach o (writeStats written) 0 }
  | .alrm =>
    let s := { s with lines := s.lines + 1, curPollCount := s.curPollCount + 1 }
    if s.curPollCount < o.statsPollCount then s
    else
      -- `ret |= -1` is `-1`
      let ret := if written then s.ret else -1
      { s with ret := ret, phase := nextDetach o ret 0 }
  | .usr1 =>
    let s := { s with ret := writeStats written }
    if written then s else { s with phase := nextDetach o s.ret 0 }

/-- `main` goes on with the result of the call that it has come to. -/
def call (o : Options) (s : Loader) : Call → Option Loader
  | .ok =>
    match s.phase with
    | .load => some { s with phase := .progFd 0 }
    | .progFd i =>
      progs[i]?.map fun d => { s with phase := if d.mapProgIdx.isSome then .update i else afterUpdate i d }
    | .update i =>
      progs[i]?.bind fun d => d.mapProgIdx.map fun idx => { s.updateElem d idx with phase := afterUpdate i d }
    | .pin i => progs[i]?.map fun d =>
      { s with pinned := Function.update s.pinned d.prog true, phase := nextProg i }
    | .unpin i => progs[i]?.map fun d =>
      { s with pinned := Function.update s.pinned d.prog false, phase := .pin i }
    | .mainFd => some { s with phase := nextInterface o 0 }
    | .attach i =>
      o.interfaces[i]?.map fun ifindex =>
        { s with attached := Function.update s.attached ifindex true, phase := nextInterface o (i + 1) }
    | .sigprocmask => some { s with phase := if 0 < o.statsPollCount then .openInterval else .wait }
    | .openInterval => some { s with phase := .wait }
    | .detach i =>
      o.interfaces[i]?.map fun ifindex =>
        { s with attached := Function.update s.attached ifindex false, phase := nextDetach o s.ret (i + 1) }
    | _ => none
  | .fail =>
    match s.phase with
    | .load | .progFd _ | .update _ | .mainFd | .attach _ | .sigprocmask | .wait =>
      some { s with phase := .exited 1 }
    | .pin _ | .unpin _ | .openInterval => some { s with phase := .exited (-1) }
    -- the results of the calls that detach are ignored
    | .detach i => some { s with phase := nextDetach o s.ret (i + 1) }
    | .exited _ | .killed => none
  | .eexist =>
    match s.phase with
    | .pin i => some { s with phase := .unpin i }
    | _ => none
  | .signal sig written =>
    match s.phase with
    -- SIGALRM is waited for only when the statistics are polled
    | .wait => if sig = .alrm ∧ o.statsPollCount = 0 then none else some (s.handle o written sig)
    | _ => none
  | .killed => if s.phase.running then some { s with phase := .killed } else none

/-- The arrays are not pinned: the kernel empties them when the process that has them open ends. -/
def closed (s : Loader) : Loader :=
  if s.phase.running then s else { s with progsXdp := fun _ => none, progsTc := fun _ => none }

def step (o : Options) (s : Loader) (a : Call) : Option Loader := (s.call o a).map closed

end Loader

end User

end BmcCache
