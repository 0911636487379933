import BmcCache.Lib.Transition
import BmcCache.Proofs.CommandLines
import BmcCache.Proofs.Filling
import Mathlib.Data.List.Forall2

/-!
# The commands of a stream

However the bytes of a client are cut into reads, a connection finds its commands: every line at its end,
every data block by its length. The exception is a storage command that wants no reply and for whose item
there is no room: its data is then read as commands.
-/

namespace BmcCache.Proofs

open Words Transition

def stream (cmds : List ServerCommand) : List Byte := (cmds.map ServerCommand.bytes).flatten

lemma stream_cons (cmd : ServerCommand) (cmds : List ServerCommand) :
    stream (cmd :: cmds) = cmd.bytes ++ stream cmds := by
  simp [stream]

/-! ### Lines in the buffer -/

section Line

variable {cmd : ServerCommand} (h : Sendable cmd)

/-- The line of a command without its end. -/
def textOf (cmd : ServerCommand) : List Byte := spaced (wordsOf cmd).1 (wordsOf cmd).2

include h in
lemma lf_notMem_textOf : LF ∉ textOf cmd :=
  notMem_spaced (by decide) fun w hw => (isToken_wordsOf h w hw).noNewline

include h in
lemma textOf_ne_nil : textOf cmd ≠ [] := by
  have hfirst := (isToken_wordsOf h _ List.mem_cons_self).ne_nil
  rw [textOf, spaced]
  exact List.append_ne_nil_of_left_ne_nil hfirst _

lemma length_itoa_le {n : ℕ} (hn : n < 2 ^ 64) : (itoaU64 n).length ≤ 20 :=
  @length_itoaU32_le n 20 (by decide) (hn.trans (by decide))

lemma length_text_le (verb : StorageVerb) : verb.text.length ≤ 7 := by
  cases verb <;> decide

lemma length_noreply_le (noreply : Bool) :
    (((if noreply then [ascii "noreply".toList] else []).map (SP :: ·)).flatten).length ≤ 8 := by
  cases noreply <;> decide

include h in
/-- Only the line of a request is long. -/
lemma length_textOf_le (hget : ∀ keys, cmd ≠ .get keys) : (textOf cmd).length ≤ 400 := by
  cases cmd with
  | get keys => exact absurd rfl (hget keys)
  | update comm key flags exptime casUnique noreply data =>
    obtain ⟨⟨hkey, -⟩, hflags, ⟨-, hexptime, -⟩, hcas, hdata⟩ := h
    have hverb := length_text_le comm
    have hle : key.length ≤ 250 := hkey.le
    have hf : (itoaU32 flags).length ≤ 20 := length_itoa_le (hflags.trans (by decide))
    have hd : (itoaU32 data.length).length ≤ 20 := length_itoa_le (Nat.lt_of_le_of_lt hdata (by decide))
    have hc := length_itoa_le hcas
    have hn := length_noreply_le noreply
    have hcasPart : (((if comm = .cas then [itoaU64 casUnique] else []).map (SP :: ·)).flatten).length ≤
        21 := by
      split_ifs
      · simp only [List.map_cons, List.map_nil, List.flatten_cons, List.flatten_nil, List.append_nil,
          List.length_cons]
        omega
      · exact Nat.zero_le 21
    simp only [textOf, wordsOf, spaced, List.map_append, List.flatten_append, List.length_append,
      List.map_cons, List.map_nil, List.flatten_cons, List.flatten_nil, List.length_cons,
      List.append_nil] at hn hcasPart ⊢
    omega
  | arithmetic incr key delta noreply =>
    obtain ⟨⟨hkey, -⟩, hdelta⟩ := h
    have hle : key.length ≤ 250 := hkey.le
    have hd := length_itoa_le hdelta
    have hn := length_noreply_le noreply
    have hname : (ascii (if incr then "incr" else "decr").toList).length = 4 := by cases incr <;> rfl
    simp only [textOf, wordsOf, spaced, List.map_append, List.flatten_append, List.length_append,
      List.map_cons, List.map_nil, List.flatten_cons, List.flatten_nil, List.length_cons,
      List.append_nil, hname] at hn ⊢
    omega
  | delete key noreply =>
    have hle : key.length ≤ 250 := h.1.le
    have hn := length_noreply_le noreply
    have hname : (ascii "delete".toList).length = 6 := rfl
    simp only [textOf, wordsOf, spaced, List.map_append, List.flatten_append, List.length_append,
      List.map_cons, List.map_nil, List.flatten_cons, List.flatten_nil, List.length_cons,
      List.append_nil, hname] at hn ⊢
    omega

include h in
lemma lf_notMem_line : LF ∉ textOf cmd ++ [CR] := by
  rw [List.mem_append, not_or]
  exact ⟨lf_notMem_textOf h, by decide⟩

lemma takeWhile_line {l : List Byte} (hl : LF ∉ l) : l.takeWhile (fun b => decide (b ≠ LF)) = l := by
  rw [List.takeWhile_eq_self_iff]
  intro b hb
  rw [decide_eq_true_eq]
  rintro rfl
  exact hl hb

include h in
/-- A part of a line makes the connection wait for more of it. -/
lemma tryRead_part {rbuf more : List Byte} (hsplit : textOf cmd ++ [CR] = rbuf ++ more) :
    tryReadCommandAscii rbuf = .needMore := by
  have hlf : LF ∉ rbuf := fun hmem => lf_notMem_line h (hsplit ▸ List.mem_append_left more hmem)
  simp only [tryReadCommandAscii, takeWhile_line hlf, reduceIte]
  split_ifs with hlong hbad
  · -- a line as long as that is a request
    have hget : ∃ keys, cmd = .get keys := by
      by_contra hno
      push Not at hno
      have hle := length_textOf_le h hno
      have hlength := congrArg List.length hsplit
      simp only [List.length_append, List.length_singleton] at hlength
      omega
    obtain ⟨keys, rfl⟩ := hget
    obtain ⟨key, keys', hkeys⟩ := List.exists_cons_of_ne_nil h.1
    have hstart : ascii "get ".toList <+: rbuf := by
      have hline : ascii "get ".toList <+: textOf (.get keys) ++ [CR] := by
        rw [textOf, wordsOf, hkeys, spaced]
        simp [ascii, chr]
      have hprefix : rbuf <+: textOf (.get keys) ++ [CR] := ⟨more, hsplit.symm⟩
      exact List.prefix_of_prefix_length_le hline hprefix
        (Nat.le_of_lt (Nat.lt_of_le_of_lt (by decide) hlong))
    obtain ⟨tail, rfl⟩ := hstart
    have hskip : (ascii "get ".toList ++ tail).dropWhile (· == SP) = ascii "get ".toList ++ tail := rfl
    rw [hskip] at hbad
    rcases hbad with hfar | ⟨hno, -⟩
    · omega
    · exact absurd (List.prefix_append _ tail) hno
  · rfl
  · rfl

include h in
/-- A whole line is read without its end. -/
lemma tryRead_line (rest : List Byte) :
    tryReadCommandAscii (textOf cmd ++ (crlf ++ rest)) = .line (textOf cmd) rest := by
  have hsplit : textOf cmd ++ (crlf ++ rest) = (textOf cmd ++ [CR]) ++ LF :: rest := by simp [crlf]
  have hline : (textOf cmd ++ (crlf ++ rest)).takeWhile (fun b => decide (b ≠ LF)) = textOf cmd ++ [CR] := by
    have hall : ∀ b ∈ textOf cmd ++ [CR], decide (b ≠ LF) = true :=
      List.takeWhile_eq_self_iff.mp (takeWhile_line (lf_notMem_line h))
    rw [hsplit, List.takeWhile_append_of_pos hall]
    simp
  have hpos := List.length_pos_of_ne_nil (textOf_ne_nil h)
  have hdrop : ((textOf cmd ++ [CR]) ++ LF :: rest).drop ((textOf cmd ++ [CR]).length + 1) = rest := by
    rw [List.drop_append]
    simp
  simp only [tryReadCommandAscii, hline]
  rw [if_neg, if_pos]
  · rw [List.dropLast_concat, hsplit, hdrop]
  · simp [hpos]
  · simp [crlf]

/-- What is in the buffer is a part of the next line, or the line with what follows it. -/
lemma tryRead_stream {cmds : List ServerCommand} (hcmds : ∀ cmd ∈ cmds, Sendable cmd)
    {rbuf socket : List Byte} (hleft : rbuf ++ socket = stream cmds) :
    (tryReadCommandAscii rbuf = .needMore ∧ (socket = [] → cmds = [])) ∨
      ∃ cmd cmds' rest, cmds = cmd :: cmds' ∧ tryReadCommandAscii rbuf = .line (textOf cmd) rest ∧
        rest ++ socket = dataOf cmd ++ stream cmds' := by
  cases cmds with
  | nil =>
    obtain ⟨rfl, -⟩ := List.append_eq_nil_iff.mp hleft
    exact Or.inl ⟨rfl, fun _ => rfl⟩
  | cons cmd cmds =>
    have hcmd := hcmds cmd List.mem_cons_self
    rw [stream_cons, bytes_eq] at hleft
    have hbytes : rbuf ++ socket = (textOf cmd ++ [CR]) ++ LF :: (dataOf cmd ++ stream cmds) := by
      rw [hleft]
      simp [textOf, crlf]
    rcases List.append_eq_append_iff.mp hbytes with ⟨more, hpart, hsocket⟩ | ⟨tail, rfl, hrest⟩
    · left
      refine ⟨tryRead_part hcmd hpart, ?_⟩
      rintro rfl
      exact absurd hsocket (by simp)
    · cases tail with
      | nil =>
        left
        rw [List.append_nil]
        refine ⟨tryRead_part hcmd (List.append_nil _).symm, ?_⟩
        rintro rfl
        exact absurd hrest (by simp)
      | cons b rest =>
        right
        rw [List.cons_append, List.cons.injEq] at hrest
        obtain ⟨rfl, hrest⟩ := hrest
        refine ⟨cmd, cmds, rest, rfl, ?_, hrest.symm⟩
        rw [← tryRead_line hcmd rest]
        simp [crlf]

end Line

/-! ### Runs -/

/-- What becomes of a command: it is run, or its item is stored or finds no room. -/
def Done (e : Event) (cmd : ServerCommand) : Prop :=
  match lineOf cmd with
  | .update line => e = .store line ((dataOf cmd).take line.vlen) ∨ e = .noRoom line
  | line => e = .run line

/-- The storage commands that find no room, for the item or for one of its chunks, want a reply. -/
def RoomForNoreply (s : Session) : ConnAction → Prop
  | .parse false => ∀ command rest line, tryReadCommandAscii s.rbuf = .line command rest →
      processCommandLine command = .update line → line.noreply = false
  | .noChunk _ => ∀ line ritem rlbytes, s.state = .nread line ritem rlbytes → line.noreply = false
  | _ => True

/-- Behind the events `before`, a part of the commands is done, and what has not been read is the rest. -/
inductive Framed (before : List Event) (cmds : List ServerCommand) : Session → Prop
  | newCmd {rbuf socket : List Byte} {events : List Event} {done rest : List ServerCommand}
  (hcmds : cmds = done ++ rest)
    (hevents : List.Forall₂ Done events done) (hleft : rbuf ++ socket = stream rest) :
    Framed before cmds ⟨.newCmd, rbuf, socket, before ++ events⟩
  | nread {rbuf socket ritem left : List Byte} {events : List Event} {done rest : List ServerCommand}
  {cmd : ServerCommand}
    {line : UpdateLine} (hcmds : cmds = done ++ cmd :: rest) (hevents : List.Forall₂ Done events done)
    (hline : lineOf cmd = .update line) (hdata : dataOf cmd = ritem ++ left)
    (hleft : rbuf ++ socket = left ++ stream rest) :
    Framed before cmds ⟨.nread line ritem left.length, rbuf, socket, before ++ events⟩
  | swallow {rbuf socket left : List Byte} {events : List Event} {done rest : List ServerCommand}
    (hcmds : cmds = done ++ rest) (hevents : List.Forall₂ Done events done)
    (hleft : rbuf ++ socket = left ++ stream rest) :
    Framed before cmds ⟨.swallow left.length, rbuf, socket, before ++ events⟩

section Run

variable {before : List Event} {cmds : List ServerCommand} {s s' : Session}

lemma forall₂_concat {events : List Event} {done : List ServerCommand}
    (h : List.Forall₂ Done events done) {e : Event} {cmd : ServerCommand} (he : Done e cmd) :
    List.Forall₂ Done (events ++ [e]) (done ++ [cmd]) :=
  List.rel_append h (List.Forall₂.cons he List.Forall₂.nil)

/-- The first bytes of what is left, taken from the buffer. -/
lemma left_split {buf more left rest : List Byte} {n : ℕ} (h : buf ++ more = left ++ rest)
    (hn : n ≤ buf.length) (hle : n ≤ left.length) :
    left = buf.take n ++ left.drop n ∧ buf.drop n ++ more = left.drop n ++ rest := by
  have htake : (buf ++ more).take n = (left ++ rest).take n := congrArg (List.take n) h
  have hdrop : (buf ++ more).drop n = (left ++ rest).drop n := congrArg (List.drop n) h
  rw [List.take_append_of_le_length hn, List.take_append_of_le_length hle] at htake
  rw [List.drop_append_of_le_length hn, List.drop_append_of_le_length hle] at hdrop
  refine ⟨?_, hdrop⟩
  rw [htake, List.take_append_drop]

/-- The buffer is empty, and they are received from the socket. -/
lemma left_received {more left rest : List Byte} {n : ℕ} (h : [] ++ more = left ++ rest)
    (hn : n ≤ more.length) (hle : n ≤ left.length) :
    left = more.take n ++ left.drop n ∧ [] ++ more.drop n = left.drop n ++ rest := by
  have hmore : more ++ [] = left ++ rest := (List.append_nil more).trans h
  obtain ⟨htake, hdrop⟩ := left_split hmore hn hle
  rw [List.append_nil] at hdrop
  exact ⟨htake, hdrop⟩

lemma length_dataOf {cmd : ServerCommand} {line : UpdateLine} (h : lineOf cmd = .update line) :
    ∃ data, dataOf cmd = data ++ crlf ∧ data.length = line.vlen := by
  cases cmd with
  | update comm key flags exptime casUnique noreply data =>
    obtain rfl := CommandLine.update.inj h
    exact ⟨data, rfl, rfl⟩
  | _ => simp [lineOf] at h

lemma done_of_line {cmd : ServerCommand} {line : CommandLine} (h : lineOf cmd = line)
    (hno : ∀ u, line ≠ .update u) :
    Done (.run line) cmd ∧ dataOf cmd = [] := by
  subst h
  cases cmd with
  | update comm key flags exptime casUnique noreply data => exact absurd rfl (hno _)
  | _ => exact ⟨rfl, rfl⟩

lemma done_noRoom {cmd : ServerCommand} {line : UpdateLine} (h : lineOf cmd = .update line) :
    Done (.noRoom line) cmd := by
  unfold Done
  rw [h]
  exact Or.inr rfl

/-- What is left of a command without room is thrown away when it wants a reply. -/
lemma framed_noRoom {state : ConnState} {rbuf socket left : List Byte} {events : List Event}
    {done rest : List ServerCommand} {cmd : ServerCommand} {line : UpdateLine}
    (hcmds : cmds = done ++ cmd :: rest) (hevents : List.Forall₂ Done events done)
    (hline : lineOf cmd = .update line) (hreply : line.noreply = false)
    (hleft : rbuf ++ socket = left ++ stream rest) :
    Framed before cmds (Session.noRoom ⟨state, rbuf, socket, before ++ events⟩ line left.length) := by
  have hparts : cmds = (done ++ [cmd]) ++ rest := by rw [hcmds, List.append_assoc, List.singleton_append]
  rw [Session.noRoom, hreply, if_neg Bool.false_ne_true, List.append_assoc]
  exact Framed.swallow hparts (forall₂_concat hevents (done_noRoom hline)) hleft

/-- A line in the buffer is the next command, whatever becomes of its item. -/
lemma framed_parse (hsend : ∀ cmd ∈ cmds, Sendable cmd) {rbuf socket : List Byte} {events : List Event}
    {done rest : List ServerCommand} (hcmds : cmds = done ++ rest) (hevents : List.Forall₂ Done events done)
    (hleft : rbuf ++ socket = stream rest) {room : Bool}
    (hok : RoomForNoreply ⟨.newCmd, rbuf, socket, before ++ events⟩ (.parse room))
    (hstep : Session.step ⟨.newCmd, rbuf, socket, before ++ events⟩ (.parse room) = some s') :
    Framed before cmds s' := by
  have hrest : ∀ cmd ∈ rest, Sendable cmd :=
    fun cmd hcmd => hsend cmd (hcmds ▸ List.mem_append_right done hcmd)
  rcases tryRead_stream hrest hleft with ⟨hmore, -⟩ | ⟨cmd, rest, after, rfl, hread, hafter⟩
  · simp [Session.step, hmore] at hstep
  have hcmd := hrest cmd List.mem_cons_self
  have hline : processCommandLine (textOf cmd) = lineOf cmd := processCommandLine_lineOf hcmd
  simp only [Session.step, hread, hline, Option.some.injEq] at hstep
  subst hstep
  cases hl : lineOf cmd with
  | update line =>
    obtain ⟨data, hdata, hlen⟩ := length_dataOf hl
    have hsize : line.vlen + 2 = (dataOf cmd).length := by
      rw [hdata, List.length_append, hlen]
      rfl
    simp only [Session.processLine]
    cases room with
    | true =>
      rw [if_pos rfl, hsize]
      exact Framed.nread hcmds hevents hl (List.nil_append _).symm hafter
    | false =>
      have hreply : line.noreply = false := hok _ _ line hread (hline.trans hl)
      rw [if_neg Bool.false_ne_true, hsize]
      exact framed_noRoom hcmds hevents hl hreply hafter
  | _ =>
    obtain ⟨hdone, hnil⟩ := done_of_line hl (by simp)
    rw [hnil, List.nil_append] at hafter
    simp only [Session.processLine]
    rw [List.append_assoc]
    have hparts : cmds = (done ++ [cmd]) ++ rest := by rw [hcmds, List.append_assoc, List.singleton_append]
    exact Framed.newCmd hparts (forall₂_concat hevents hdone) hafter

/-- The block of an item that is complete is the value with the end of its line. -/
lemma framed_store {rbuf socket ritem : List Byte} {events : List Event} {done rest : List ServerCommand}
    {cmd : ServerCommand} {line : UpdateLine} (hcmds : cmds = done ++ cmd :: rest)
    (hevents : List.Forall₂ Done events done) (hline : lineOf cmd = .update line)
    (hdata : dataOf cmd = ritem) (hleft : rbuf ++ socket = stream rest) :
    Framed before cmds (Session.completeNreadAscii ⟨.nread line ritem 0, rbuf, socket, before ++ events⟩
      line ritem) := by
  obtain ⟨data, hblock, hlen⟩ := length_dataOf hline
  have hritem : ritem = data ++ crlf := hdata.symm.trans hblock
  have hsize : ritem.length - 2 = data.length := by
    rw [hritem, List.length_append]
    rfl
  have hend : ritem.drop (ritem.length - 2) = crlf := by rw [hsize, hritem, List.drop_left]
  have hvalue : ritem.take (ritem.length - 2) = (dataOf cmd).take line.vlen := by rw [hsize, hdata, hlen]
  have hdone : Done (.store line (ritem.take (ritem.length - 2))) cmd := by
    unfold Done
    rw [hline, hvalue]
    exact Or.inl rfl
  have hparts : cmds = (done ++ [cmd]) ++ rest := by rw [hcmds, List.append_assoc, List.singleton_append]
  rw [Session.completeNreadAscii, if_pos hend, List.append_assoc]
  exact Framed.newCmd hparts (forall₂_concat hevents hdone) hleft

/-- However much is read or taken at a time, the next command starts behind the last one. -/
lemma framed_step (hsend : ∀ cmd ∈ cmds, Sendable cmd) {a : ConnAction} (h : Framed before cmds s)
    (hok : RoomForNoreply s a) (hstep : Session.step s a = some s') : Framed before cmds s' := by
  cases h with
  | @newCmd rbuf socket events done rest hcmds hevents hleft =>
    cases a with
    | read n =>
      simp only [Session.step, Option.ite_none_right_eq_some, Option.some.injEq] at hstep
      obtain ⟨-, rfl⟩ := hstep
      refine Framed.newCmd hcmds hevents ?_
      rw [List.append_assoc, List.take_append_drop, hleft]
    | parse room => exact framed_parse hsend hcmds hevents hleft hok hstep
    | copy => simp [Session.step] at hstep
    | receive n => simp [Session.step] at hstep
    | noChunk n => simp [Session.step] at hstep
    | finish => simp [Session.step] at hstep
  | @nread rbuf socket ritem left events done rest cmd line hcmds hevents hline hdata hleft =>
    cases a with
    | read n => simp [Session.step] at hstep
    | parse room => simp [Session.step] at hstep
    | copy =>
      cases hk : left.length with
      | zero => simp [Session.step, hk] at hstep
      | succ k =>
        simp only [Session.step, hk, Option.ite_none_left_eq_some, Option.some.injEq] at hstep
        obtain ⟨-, rfl⟩ := hstep
        rw [← hk]
        obtain ⟨hsplit, hrest⟩ := left_split hleft (Nat.min_le_left _ _) (Nat.min_le_right _ _)
        rw [← List.length_drop]
        refine Framed.nread hcmds hevents hline ?_ hrest
        rw [hdata, List.append_assoc, ← hsplit]
    | receive n =>
      cases hk : left.length with
      | zero => simp [Session.step, hk] at hstep
      | succ k =>
        simp only [Session.step, hk, Option.ite_none_left_eq_some, Option.ite_none_right_eq_some,
          Option.some.injEq, not_or, not_not, Nat.not_lt] at hstep
        obtain ⟨⟨rfl, -, hn⟩, hle, rfl⟩ := hstep
        obtain ⟨hsplit, hrest⟩ := left_received hleft hn (hk ▸ hle)
        rw [← hk, ← List.length_drop]
        refine Framed.nread hcmds hevents hline ?_ hrest
        rw [hdata, List.append_assoc, ← hsplit]
    | noChunk n =>
      cases hk : left.length with
      | zero => simp [Session.step, hk] at hstep
      | succ k =>
        simp only [Session.step, hk, Option.ite_none_right_eq_some, Option.some.injEq] at hstep
        obtain ⟨⟨hn, hle⟩, rfl⟩ := hstep
        have hreply : line.noreply = false := hok line ritem left.length rfl
        obtain ⟨-, hrest⟩ := left_split hleft hn (by omega)
        rw [← hk, ← List.length_drop]
        exact framed_noRoom hcmds hevents hline hreply hrest
    | finish =>
      cases hk : left.length with
      | succ k => simp [Session.step, hk] at hstep
      | zero =>
        obtain rfl := List.eq_nil_of_length_eq_zero hk
        rw [List.append_nil] at hdata
        simp only [Session.step, hk, Option.some.injEq] at hstep
        subst hstep
        exact framed_store hcmds hevents hline hdata hleft
  | @swallow rbuf socket left events done rest hcmds hevents hleft =>
    cases a with
    | read n => simp [Session.step] at hstep
    | parse room => simp [Session.step] at hstep
    | copy =>
      cases hk : left.length with
      | zero => simp [Session.step, hk] at hstep
      | succ k =>
        simp only [Session.step, hk, Option.ite_none_left_eq_some, Option.some.injEq] at hstep
        obtain ⟨-, rfl⟩ := hstep
        rw [← hk]
        obtain ⟨-, hrest⟩ := left_split hleft (Nat.min_le_left _ _) (Nat.min_le_right _ _)
        rw [← List.length_drop]
        exact Framed.swallow hcmds hevents hrest
    | receive n =>
      cases hk : left.length with
      | zero => simp [Session.step, hk] at hstep
      | succ k =>
        simp only [Session.step, hk, Option.ite_none_left_eq_some, Option.ite_none_right_eq_some,
          Option.some.injEq, not_or, not_not, Nat.not_lt] at hstep
        obtain ⟨⟨rfl, -, hn⟩, hle, rfl⟩ := hstep
        obtain ⟨-, hrest⟩ := left_received hleft hn (hk ▸ hle)
        rw [← hk, ← List.length_drop]
        exact Framed.swallow hcmds hevents hrest
    | noChunk n => simp [Session.step] at hstep
    | finish =>
      cases hk : left.length with
      | succ k => simp [Session.step, hk] at hstep
      | zero =>
        obtain rfl := List.eq_nil_of_length_eq_zero hk
        simp only [Session.step, hk, Option.some.injEq] at hstep
        subst hstep
        exact Framed.newCmd hcmds hevents hleft

lemma framed_run (hsend : ∀ cmd ∈ cmds, Sendable cmd) (hs : Framed before cmds s)
    (h : Reach Session.step RoomForNoreply s s') : Framed before cmds s' := by
  apply Reach.invariant (Framed before cmds) h hs
  intro t a t' ht hok hstep
  exact framed_step hsend ht hok hstep

/-- The commands behind the events `before` that a state has done. -/
lemma Framed.events (h : Framed before cmds s) : ∃ events done, s.events = before ++ events ∧
    List.Forall₂ Done events done ∧ done <+: cmds := by
  cases h with
  | newCmd hcmds hevents => exact ⟨_, _, rfl, hevents, hcmds ▸ List.prefix_append _ _⟩
  | nread hcmds hevents => exact ⟨_, _, rfl, hevents, hcmds ▸ List.prefix_append _ _⟩
  | swallow hcmds hevents => exact ⟨_, _, rfl, hevents, hcmds ▸ List.prefix_append _ _⟩

/-- An action that does not run out of memory. -/
def hasRoom : ConnAction → Bool
  | .parse room => room
  | .noChunk _ => false
  | _ => true

lemma roomForNoreply_of_hasRoom {a : ConnAction} (ha : hasRoom a = true) : RoomForNoreply s a := by
  cases a with
  | parse room =>
    obtain rfl : room = true := ha
    exact trivial
  | noChunk n => exact absurd ha Bool.false_ne_true
  | _ => exact trivial

/-- In the middle of a block there is something to take, in the buffer or in the socket. -/
lemma block_goes_on {state : ConnState} {rbuf socket left : List Byte} {events : List Event}
    {rest : List ServerCommand} (hleft : rbuf ++ socket = left ++ stream rest)
    (hstate : (∃ line ritem, state = .nread line ritem left.length) ∨ state = .swallow left.length) :
    ∃ a, hasRoom a = true ∧ (Session.step ⟨state, rbuf, socket, events⟩ a).isSome := by
  cases hk : left.length with
  | zero =>
    refine ⟨.finish, rfl, ?_⟩
    rcases hstate with ⟨line, ritem, rfl⟩ | rfl <;> simp [Session.step, hk]
  | succ k =>
    by_cases hbuf : rbuf = []
    · have hsocket : socket ≠ [] := by
        rintro rfl
        rw [hbuf] at hleft
        exact List.ne_nil_of_length_eq_add_one hk (List.append_eq_nil_iff.mp hleft.symm).1
      refine ⟨.receive 1, rfl, ?_⟩
      rcases hstate with ⟨line, ritem, rfl⟩ | rfl <;> simp [Session.step, hk, hbuf, hsocket]
    · refine ⟨.copy, rfl, ?_⟩
      rcases hstate with ⟨line, ritem, rfl⟩ | rfl <;> simp [Session.step, hk, hbuf]

/-- A connection stops with all commands done. -/
lemma framed_stop (hsend : ∀ cmd ∈ cmds, Sendable cmd) (h : Framed before cmds s)
    (hstop : ∀ a, RoomForNoreply s a → Session.step s a = none) :
    ∃ events, s.events = before ++ events ∧ List.Forall₂ Done events cmds := by
  have hno : ∀ a, hasRoom a = true → ¬(Session.step s a).isSome := by
    intro a ha hsome
    rw [hstop a (roomForNoreply_of_hasRoom ha)] at hsome
    exact Bool.false_ne_true hsome
  cases h with
  | @newCmd rbuf socket events done rest hcmds hevents hleft =>
    have hrest : ∀ cmd ∈ rest, Sendable cmd :=
      fun cmd hcmd => hsend cmd (hcmds ▸ List.mem_append_right done hcmd)
    rcases tryRead_stream hrest hleft with ⟨-, hdone⟩ | ⟨cmd, rest', after, rfl, hread, -⟩
    · by_cases hsocket : socket = []
      · rw [hdone hsocket, List.append_nil] at hcmds
        exact ⟨events, rfl, hcmds ▸ hevents⟩
      · have hpos := List.length_pos_of_ne_nil hsocket
        exact absurd (by simp [Session.step, Nat.succ_le_of_lt hpos]) (hno (.read 1) rfl)
    · exact absurd (by simp [Session.step, hread]) (hno (.parse true) rfl)
  | @nread rbuf socket ritem left events done rest cmd line hcmds hevents hline hdata hleft =>
    obtain ⟨a, ha, hsome⟩ := block_goes_on hleft (Or.inl ⟨line, ritem, rfl⟩)
    exact absurd hsome (hno a ha)
  | @swallow rbuf socket left events done rest hcmds hevents hleft =>
    obtain ⟨a, ha, hsome⟩ := block_goes_on hleft (Or.inr rfl)
    exact absurd hsome (hno a ha)

/-- A bound on the steps that are left. -/
def stepsLeft (s : Session) : ℕ :=
  4 * s.socket.length + 3 * s.rbuf.length +
    match s.state with
    | .nread .. => 3
    | .swallow _ => 2
    | .newCmd => 1
    | .closing => 0

lemma length_rest_lt {rbuf command rest : List Byte} (h : tryReadCommandAscii rbuf = .line command rest) :
    rest.length < rbuf.length := by
  simp only [tryReadCommandAscii] at h
  split_ifs at h with hall
  all_goals
    obtain ⟨-, rfl⟩ := ReadResult.line.inj h
    have hle : (rbuf.takeWhile fun b => decide (b ≠ LF)).length ≤ rbuf.length :=
      (List.takeWhile_sublist _).length_le
    rw [List.length_drop]
    omega

lemma stepsLeft_noRoom (line : UpdateLine) (left : ℕ) :
    stepsLeft (s.noRoom line left) ≤ 4 * s.socket.length + 3 * s.rbuf.length + 2 := by
  simp only [Session.noRoom]
  split_ifs <;> simp [stepsLeft]

lemma stepsLeft_lt {a : ConnAction} (h : Session.step s a = some s') : stepsLeft s' < stepsLeft s := by
  obtain ⟨state, rbuf, socket, events⟩ := s
  cases a with
  | read n =>
    cases state <;> simp only [Session.step, reduceCtorEq, Option.ite_none_right_eq_some,
      Option.some.injEq] at h
    obtain ⟨⟨hpos, hn⟩, rfl⟩ := h
    simp only [stepsLeft, List.length_append, List.length_take, List.length_drop]
    omega
  | parse room =>
    cases state <;> simp only [Session.step, reduceCtorEq] at h
    split at h
    · exact absurd h (by simp)
    · obtain rfl := Option.some.inj h
      simp only [stepsLeft]
      omega
    · next command rest hread =>
      obtain rfl := Option.some.inj h
      have hlt := length_rest_lt hread
      cases processCommandLine command with
      | update line =>
        simp only [Session.processLine]
        split_ifs
        · simp only [stepsLeft]
          omega
        · apply lt_of_le_of_lt (stepsLeft_noRoom line _)
          simp only [stepsLeft]
          omega
      | _ =>
        simp only [Session.processLine, stepsLeft]
        omega
  | copy =>
    simp only [Session.step, Option.ite_none_left_eq_some] at h
    obtain ⟨hbuf, h⟩ := h
    have hpos := List.length_pos_of_ne_nil hbuf
    split at h
    · obtain rfl := Option.some.inj h
      simp only [stepsLeft, List.length_drop]
      omega
    · obtain rfl := Option.some.inj h
      simp only [stepsLeft, List.length_drop]
      omega
    · exact absurd h (by simp)
  | receive n =>
    simp only [Session.step, Option.ite_none_left_eq_some, not_or, not_not, Nat.not_lt] at h
    obtain ⟨⟨-, hpos, hn⟩, h⟩ := h
    split at h
    · obtain ⟨-, h⟩ := Option.ite_none_right_eq_some.mp h
      obtain rfl := Option.some.inj h
      simp only [stepsLeft, List.length_drop]
      omega
    · obtain ⟨-, h⟩ := Option.ite_none_right_eq_some.mp h
      obtain rfl := Option.some.inj h
      simp only [stepsLeft, List.length_drop]
      omega
    · exact absurd h (by simp)
  | noChunk n =>
    simp only [Session.step] at h
    split at h
    · obtain ⟨-, h⟩ := Option.ite_none_right_eq_some.mp h
      obtain rfl := Option.some.inj h
      apply lt_of_le_of_lt (stepsLeft_noRoom _ _)
      simp only [stepsLeft, List.length_drop]
      omega
    · exact absurd h (by simp)
  | finish =>
    simp only [Session.step] at h
    split at h
    · obtain rfl := Option.some.inj h
      simp only [Session.completeNreadAscii]
      split_ifs <;> simp only [stepsLeft] <;> omega
    · obtain rfl := Option.some.inj h
      simp only [stepsLeft]
      omega
    · exact absurd h (by simp)

end Run

section Stream

variable {cmds : List ServerCommand} {as : List ConnAction} {s : Session}

/-- However the stream of a client is cut, its commands are found and done one after the other, and a
connection that can go on no further has done them all. -/
theorem stream_framed (hsend : ∀ cmd ∈ cmds, Sendable cmd)
    (hrun : run Session.step (Session.init (stream cmds)) as = some s)
    (hroom : Meets Session.step RoomForNoreply (Session.init (stream cmds)) as) :
    s.state ≠ .closing ∧ as.length ≤ 4 * (stream cmds).length ∧
    (∃ done, List.Forall₂ Done s.events done ∧ done <+: cmds) ∧
      ((∀ a, RoomForNoreply s a → Session.step s a = none) → List.Forall₂ Done s.events cmds) := by
  have hinit : Framed [] cmds (Session.init (stream cmds)) :=
    Framed.newCmd (List.nil_append _).symm List.Forall₂.nil (List.nil_append _)
  have hframed := framed_run hsend hinit (Reach.of_run Reach.init hrun hroom)
  have hopen : s.state ≠ .closing := by cases hframed <;> exact nofun
  refine ⟨hopen, ?_, ?_, ?_⟩
  · have hlength := length_le_of_run stepsLeft (fun _ _ _ => stepsLeft_lt) hrun
    have hbegin : stepsLeft (Session.init (stream cmds)) = 4 * (stream cmds).length + 1 := rfl
    have hleft : 0 < stepsLeft s := by
      cases hframed <;> exact Nat.succ_pos _
    omega
  · obtain ⟨events, done, hevents, hdone, hpart⟩ := hframed.events
    rw [hevents]
    exact ⟨done, hdone, hpart⟩
  · intro hstop
    obtain ⟨events, hevents, hdone⟩ := framed_stop hsend hframed hstop
    rw [hevents]
    exact hdone

/-! ### Two streams -/

def shortKey : List Byte := ascii ['k']

def shortGet : ServerCommand := .get [shortKey]

def shortSet (noreply : Bool) (data : List Byte) : ServerCommand :=
  .update .set shortKey 0 (ascii ['0']) 0 noreply data

lemma isKey_shortKey : IsKey shortKey ∧ 0 ∉ shortKey := by
  refine ⟨⟨?_, ?_, ?_, ?_⟩, ?_⟩ <;> decide

lemma sendable_shortGet : Sendable shortGet := by
  refine ⟨by simp, fun key hkey => ?_⟩
  rw [List.mem_singleton.mp hkey]
  exact isKey_shortKey

lemma sendable_shortSet {noreply : Bool} {data : List Byte} (h : data.length ≤ intMax - 2) :
    Sendable (shortSet noreply data) := by
  have hzero : IsToken (ascii ['0']) := by constructor <;> decide
  exact ⟨isKey_shortKey, by decide, ⟨hzero, by decide, by decide⟩, by decide, h⟩

/-- A line and a data block that come in two parts each. -/
def cutReads : List ConnAction :=
  [.read 5, .read 9, .parse true, .copy, .receive 2, .receive 1, .finish, .read 7, .parse true]

def cutEnd : Session :=
  ⟨.newCmd, [], [], [.store ⟨.set, shortKey, 0, 0, 2, 0, false⟩ (ascii "hi".toList), .run (.get [shortKey])]⟩

/-- With nothing left to read, nothing can be done. -/
lemma idle_stops (events : List Event) (a : ConnAction) :
    Session.step ⟨.newCmd, [], [], events⟩ a = none := by
  cases a with
  | read n =>
    have hno : ¬(0 < n ∧ n ≤ ([] : List Byte).length) := fun h => absurd h.2 (Nat.not_le_of_lt h.1)
    exact if_neg hno
  | receive n =>
    by_cases hzero : n = 0
    · exact if_pos (Or.inr (Or.inl hzero))
    · exact if_pos (Or.inr (Or.inr (Nat.pos_of_ne_zero hzero)))
  | _ => rfl

theorem cutReads_framed :
    run Session.step (Session.init (stream [shortSet false (ascii "hi".toList), shortGet])) cutReads =
    some cutEnd ∧
      List.Forall₂ Done cutEnd.events [shortSet false (ascii "hi".toList), shortGet] := by
  have hrun : run Session.step
      (Session.init (stream [shortSet false (ascii "hi".toList), shortGet])) cutReads =
      some cutEnd := by decide
  have hsend : ∀ cmd ∈ [shortSet false (ascii "hi".toList), shortGet], Sendable cmd := by
    intro cmd hcmd
    rcases List.mem_pair.mp hcmd with rfl | rfl
    · exact sendable_shortSet (by decide)
    · exact sendable_shortGet
  have hroom : ∀ a ∈ cutReads, ∀ s, RoomForNoreply s a := by
    intro a ha s
    have hall : ∀ a ∈ cutReads, hasRoom a = true := by decide
    exact roomForNoreply_of_hasRoom (hall a ha)
  obtain ⟨-, -, -, hstop⟩ := stream_framed hsend hrun (meets_of_mem hroom _)
  exact ⟨hrun, hstop fun a _ => idle_stops cutEnd.events a⟩

section Refused

variable {cmd : ServerCommand} {line : UpdateLine} {inner outer : List ServerCommand}
    {rbuf socket : List Byte}
  {events : List Event} {refused : Session}

/-- The data of a command that is refused and wants no reply stays in front of what follows. -/
lemma refused_eq (hsend : ∀ c ∈ cmd :: outer, Sendable c) (hline : lineOf cmd = .update line)
    (hnoreply : line.noreply = true) (hbytes : rbuf ++ socket = stream (cmd :: outer))
    (hrefused : Session.step ⟨.newCmd, rbuf, socket, events⟩ (.parse false) = some refused) :
    ∃ rest, refused = ⟨.newCmd, rest, socket, events ++ [.noRoom line]⟩ ∧
    rest ++ socket = dataOf cmd ++ stream outer := by
  rcases tryRead_stream hsend hbytes with ⟨hmore, -⟩ | ⟨cmd', outer', rest, hcons, hread, hrest⟩
  · simp [Session.step, hmore] at hrefused
  obtain ⟨rfl, rfl⟩ := List.cons.inj hcons
  have hparsed : processCommandLine (textOf cmd) = .update line :=
    (processCommandLine_lineOf (hsend cmd List.mem_cons_self)).trans hline
  simp only [Session.step, hread, hparsed, Session.processLine, Session.noRoom, hnoreply,
    Bool.false_eq_true, reduceIte, Option.some.injEq] at hrefused
  exact ⟨rest, hrefused.symm, hrest⟩

/-- Behind a storage command without a reply whose item finds no room, the connection goes on with the
data: where that reads as commands, they are done before those that follow. -/
theorem refused_data_executed (hsend : ∀ c ∈ cmd :: (inner ++ outer), Sendable c)
    (hline : lineOf cmd = .update line) (hnoreply : line.noreply = true) (hdata : dataOf cmd = stream inner)
    (hbytes : rbuf ++ socket = stream (cmd :: outer))
    (hrefused : Session.step ⟨.newCmd, rbuf, socket, events⟩ (.parse false) = some refused)
    (hrun : run Session.step refused as = some s) (hroom : Meets Session.step RoomForNoreply refused as) :
    ∃ later, s.events = events ++ .noRoom line :: later ∧
      (∃ done, List.Forall₂ Done later done ∧ done <+: inner ++ outer) ∧
      ((∀ a, RoomForNoreply s a → Session.step s a = none) → List.Forall₂ Done later (inner ++ outer)) := by
  have hcmds : ∀ c ∈ inner ++ outer, Sendable c := fun c hc => hsend c (List.mem_cons_of_mem cmd hc)
  have hfirst : ∀ c ∈ cmd :: outer, Sendable c := by
    intro c hc
    apply hsend c
    rcases List.mem_cons.mp hc with rfl | hc
    · exact List.mem_cons_self
    · exact List.mem_cons_of_mem cmd (List.mem_append_right inner hc)
  obtain ⟨rest, rfl, hrest⟩ := refused_eq hfirst hline hnoreply hbytes hrefused
  have hstream : rest ++ socket = stream (inner ++ outer) := by
    rw [hrest, hdata, stream, stream, stream, List.map_append, List.flatten_append]
  have hframed : Framed (events ++ [.noRoom line]) (inner ++ outer) s := by
    have hstart := @Framed.newCmd (events ++ [.noRoom line]) _ _ _ _ [] _
      (List.nil_append _).symm List.Forall₂.nil hstream
    rw [List.append_nil] at hstart
    exact framed_run hcmds hstart (Reach.of_run Reach.init hrun hroom)
  obtain ⟨later, done, hevents, hdone, hpart⟩ := hframed.events
  refine ⟨later, ?_, ⟨done, hdone, hpart⟩, ?_⟩
  · rw [hevents, List.append_assoc, List.singleton_append]
  · intro hstop
    obtain ⟨later', hevents', hall⟩ := framed_stop hcmds hframed hstop
    rw [hevents] at hevents'
    rw [List.append_cancel_left hevents']
    exact hall

/-- The value of the refused item is a request, and it is answered. -/
theorem hidden_get_executed :
    ∃ refused, Session.step ⟨.newCmd, stream [shortSet true (ascii "get k".toList)], [], []⟩
      (.parse false) = some refused ∧
    ∃ s, run Session.step refused [.parse true] = some s ∧
      s.events = [.noRoom ⟨.set, shortKey, 0, 0, 5, 0, true⟩, .run (.get [shortKey])] ∧
      ∃ later, s.events = .noRoom ⟨.set, shortKey, 0, 0, 5, 0, true⟩ :: later ∧
      List.Forall₂ Done later [shortGet] := by
  have hrefused : Session.step ⟨.newCmd, stream [shortSet true (ascii "get k".toList)], [], []⟩
      (.parse false) =
      some ⟨.newCmd, shortGet.bytes, [], [.noRoom ⟨.set, shortKey, 0, 0, 5, 0, true⟩]⟩ := by decide
  have hrun : run Session.step ⟨.newCmd, shortGet.bytes, [], [.noRoom ⟨.set, shortKey, 0, 0, 5, 0, true⟩]⟩
      [.parse true] =
      some ⟨.newCmd, [], [], [.noRoom ⟨.set, shortKey, 0, 0, 5, 0, true⟩, .run (.get [shortKey])]⟩ := by
        decide
  have hsend : ∀ c ∈ shortSet true (ascii "get k".toList) :: ([shortGet] ++ []), Sendable c := by
    intro c hc
    rcases List.mem_pair.mp hc with rfl | rfl
    · exact sendable_shortSet (by decide)
    · exact sendable_shortGet
  have hroom : ∀ a ∈ [ConnAction.parse true], ∀ s, RoomForNoreply s a := by
    intro a ha s
    rw [List.mem_singleton.mp ha]
    exact roomForNoreply_of_hasRoom rfl
  obtain ⟨later, hevents, -, hstop⟩ :=
    refused_data_executed hsend rfl rfl (by decide) (List.append_nil _) hrefused hrun
    (meets_of_mem hroom _)
  exact ⟨_, hrefused, _, hrun, rfl, later, hevents, hstop fun a _ => idle_stops _ a⟩

end Refused

end Stream

end BmcCache.Proofs
