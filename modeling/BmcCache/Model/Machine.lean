import BmcCache.Model.Ingress
import BmcCache.Model.Egress

/-!
# The programs on many CPUs

All CPUs share `map_kcache` and have their own copies of the other maps. A CPU that has
received a packet runs its ingress programs one after the other; a program takes at most
one entry lock, so it is one step here, except that `bmc_invalidate_cache_main` takes a lock
for every key it finds and is split into the iterations of its loop. A CPU without a
packet may send one through the egress programs, which is one step as well.
-/

namespace BmcCache

/-- What a CPU has to do next for the packet it has received. -/
inductive Task
  | idle
  /-- Run the program, with `left` tail calls still allowed. -/
  | xdp (left : ℕ) (prog : XdpProg) (ctx : XdpMd)
  /-- Go on with the loop of `bmc_invalidate_cache_main`. -/
  | scan (left : ℕ) (rest : List Byte) (v : ScanVars) (ctx : XdpMd)
  /-- Count the update that `bmc_update_cache_main` has made. -/
  | count

structure Machine where
  cpus : ℕ → PerCpu
  tasks : ℕ → Task
  kcache : Cache

inductive Action
  | receive (cpu : ℕ) (headroom frame : List Byte)
  | advance (cpu : ℕ)
  | transmit (cpu : ℕ) (skb : SkBuff)

namespace Machine

/-- The freshly created maps, and no packet anywhere. -/
def booted : Machine := ⟨fun _ => PerCpu.zeroed, fun _ => .idle, Cache.zeroed⟩

/-- `cpu` leaves its maps and the cache as given and turns to `task`. -/
def put (m : Machine) (cpu : ℕ) (percpu : PerCpu) (kcache : Cache) (task : Task) : Machine :=
  ⟨Function.update m.cpus cpu percpu, Function.update m.tasks cpu task, kcache⟩

/-- The end of an ingress program: a verdict, or the program called next. -/
def exit (m : Machine) (cpu left : ℕ) : Exit × XdpState → Machine × Option (XdpAction × XdpMd)
  | (.ret action, s) => (m.put cpu s.cpu s.kcache .idle, some (action, s.ctx))
  | (.tailCall next fallthrough, s) =>
    match left with
    | 0 => (m.put cpu s.cpu s.kcache .idle, some (fallthrough, s.ctx))
    | left + 1 => (m.put cpu s.cpu s.kcache (.xdp left next s.ctx), none)

def countUpdate (cpu : PerCpu) : PerCpu :=
  { cpu with stats := { cpu.stats with updateCount := cpu.stats.updateCount + 1 } }

/-- The next step for the packet on `cpu`, with the verdict if it is the last one. -/
def advance (m : Machine) (cpu : ℕ) : Option (Machine × Option (XdpAction × XdpMd)) :=
  match m.tasks cpu with
  | .idle => none
  | .xdp _ .invalidateCache ctx =>
    let payload := ctx.pkt.drop (ethHlen + sizeofIphdr + sizeofTcphdr)
    if payload.length = 0 then some (m.put cpu (m.cpus cpu) m.kcache .idle, some (.pass, ctx))
    else some (m.put cpu (m.cpus cpu) m.kcache (.scan bmcMaxPacketLength payload ScanVars.init ctx), none)
  | .xdp left prog ctx => some (m.exit cpu left (prog.main ⟨ctx, m.cpus cpu, m.kcache⟩))
  | .scan (left + 1) (c :: cs) v ctx =>
    let r := scanStep v c cs
    let maps := applyScanEvent r.2 (m.cpus cpu) m.kcache
    some (m.put cpu maps.1 maps.2 (.scan left cs r.1 ctx), none)
  | .scan _ _ _ ctx => some (m.put cpu (m.cpus cpu) m.kcache .idle, some (.pass, ctx))
  | .count => some (m.put cpu (countUpdate (m.cpus cpu)) m.kcache .idle, none)

/-- The egress programs have run on a packet up to the end of their lock section. -/
def transmitted (m : Machine) (cpu : ℕ) (skb : SkBuff) : Machine :=
  let stats := (m.cpus cpu).stats
  let r := bmcTxFilterMain skb stats m.kcache
  -- `update_count` is still the old one: its increment comes after `bpf_spin_unlock`
  m.put cpu { m.cpus cpu with stats := { r.stats with updateCount := stats.updateCount } } r.kcache
    (if r.stats.updateCount = stats.updateCount then .idle else .count)

/-- One step of the machine; the second component is the verdict on a packet it finishes. -/
def step (m : Machine) : Action → Option (Machine × Option (XdpAction × XdpMd))
  | .receive cpu headroom frame =>
    match m.tasks cpu with
    | .idle =>
      some (m.put cpu (m.cpus cpu) m.kcache (.xdp maxTailCallCnt .rxFilter (received headroom frame)), none)
    | _ => none
  | .advance cpu => m.advance cpu
  | .transmit cpu skb =>
    match m.tasks cpu with
    | .idle => some (m.transmitted cpu skb, none)
    | _ => none

end Machine

end BmcCache
