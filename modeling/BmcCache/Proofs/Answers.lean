import BmcCache.Proofs.Commands
import BmcCache.Proofs.Framing

/-!
# The keys of an answered request

What memcached sends for the line of a request, read as memcached reads it, and what the cache sends for the
same line. They agree exactly when each key that memcached holds is served by an entry of its own.
-/

namespace BmcCache.Proofs

/-- Memcached finds the keys of the line that the cache answers. -/
lemma getReply_getLine (s : Store) {ks : List (List Byte)} (hne : ks ≠ [])
    (hkeys : ∀ k ∈ ks, IsKey k ∧ 0 ∉ k) :
    getReply s (getLine ks) = some (processGetCommand s ks) := by
  have hsend : Sendable (.get ks) := ⟨hne, hkeys⟩
  have htext : getLine ks = textOf (.get ks) ++ (crlf ++ []) := by
    rw [← bytes_get hne, bytes_eq]
    rfl
  have hread := tryRead_line hsend []
  rw [← htext] at hread
  have hline : processCommandLine (textOf (.get ks)) = .get ks := processCommandLine_lineOf hsend
  rw [getReply, hread]
  simp only [hline]

/-- The parser stops inside the first key with a carriage return. -/
lemma readWords_split {front behind : List (List Byte)} {k : List Byte} (hfront : ∀ k' ∈ front, CR ∉ k')
    (hk : CR ∈ k) :
    readWords (front ++ k :: behind) = front ++ [k.takeWhile isKeyByte] := by
  induction front with
  | nil => exact if_pos hk
  | cons k' front ih =>
    rw [List.cons_append, readWords, if_neg (hfront k' List.mem_cons_self),
      ih fun key hkey => hfront key (List.mem_cons_of_mem _ hkey), List.cons_append]

/-- The keys in front are served, and of those behind, memcached holds the one that passes for the word and
no other. -/
def ServedUpTo (s : Store) (c : Cache) (front : List (List Byte)) (w : List Byte) (rest : List (List Byte)) :
    Prop :=
  AllServed s c front ∧ rest.filter (fun k => (s.find k).isSome) = (passingKey c w).toList

/-- Key by key when entries of longer keys pass as well: `owed` are the keys shown before their turn. A key
that memcached holds is shown by its own entry and is the first that is owed; one that it does not hold may
leave another key owed. Behind the keys in front, memcached holds what is owed then. -/
def ServedAhead (s : Store) (c : Cache) (w : List Byte) (rest : List (List Byte)) :
    List (List Byte) → List (List Byte) → Prop
  | owed, [] => rest.filter (fun k => (s.find k).isSome) = owed ++ (passingKey c w).toList
  | owed, k :: front =>
    if (s.find k).isSome then
      passingKey c k = some k ∧ ∃ later, owed ++ [k] = k :: later ∧ ServedAhead s c w rest later front
    else ServedAhead s c w rest (owed ++ (passingKey c k).toList) front

lemma filterMap_passingKey_cons (c : Cache) (k : List Byte) (ks : List (List Byte)) :
    (k :: ks).filterMap (passingKey c) = (passingKey c k).toList ++ ks.filterMap (passingKey c) := by
  cases hpass : passingKey c k with
  | none => exact List.filterMap_cons_none hpass
  | some key => exact List.filterMap_cons_some hpass

section Served

variable {s : Store} {c : Cache} (hc : Mirrors s c)

include hc

lemma allServed_iff (ks : List (List Byte)) :
    AllServed s c ks ↔ ks.filterMap (passingKey c) = ks.filter fun k => (s.find k).isSome := by
  rw [passing_eq_held_iff hc]
  simp only [passingKey_self_iff, AllServed]

/-- Where no longer key passes, a key that is held is found nowhere but in its own entry. -/
lemma servedUpTo_iff {front rest : List (List Byte)} (w : List Byte) (htwin : ∀ k ∈ front, ¬LongerTwin c k) :
    (front ++ [w]).filterMap (passingKey c) = (front ++ rest).filter (fun k => (s.find k).isSome) ↔
      ServedUpTo s c front w rest := by
  rw [List.filterMap_append, List.filter_append, filterMap_passingKey_cons, List.filterMap_nil,
    List.append_nil]
  constructor
  · intro h
    have hserved : AllServed s c front := by
      intro k hk
      refine ⟨fun hheld => ?_, htwin k hk⟩
      have hmem : k ∈ front.filterMap (passingKey c) ++ (passingKey c w).toList := by
        rw [h]
        exact List.mem_append_left _ (List.mem_filter.mpr ⟨hk, hheld⟩)
      -- a word that is taken for `k` shows that its entry is there
      rw [← passingKey_self_iff]
      rcases List.mem_append.mp hmem with hmem | hmem
      · obtain ⟨k', -, hpass⟩ := List.mem_filterMap.mp hmem
        exact passingKey_self_of_some hpass
      · exact passingKey_self_of_some (Option.mem_toList.mp hmem)
    refine ⟨hserved, ?_⟩
    rw [(allServed_iff hc front).mp hserved] at h
    exact (List.append_cancel_left h).symm
  · rintro ⟨hserved, hrest⟩
    rw [(allServed_iff hc front).mp hserved, hrest]

omit hc in
lemma owed_later {k : List Byte} {owed later : List (List Byte)} (howed : ∀ k ∈ owed, passingKey c k = some k)
    (hself : passingKey c k = some k) (hlater : owed ++ [k] = k :: later) :
    ∀ key ∈ later, passingKey c key = some key := by
  intro key hkey
  have hmem : key ∈ owed ++ [k] := by
    rw [hlater]
    exact List.mem_cons_of_mem k hkey
  rcases List.mem_append.mp hmem with hmem | hmem
  · exact howed key hmem
  · rwa [List.mem_singleton.mp hmem]

omit hc in
/-- What is owed is paid in turn, by induction on the keys in front. -/
lemma servedAhead_iff (w : List Byte) (rest : List (List Byte)) {owed : List (List Byte)}
    (howed : ∀ k ∈ owed, passingKey c k = some k) (front : List (List Byte)) :
    owed ++ (front ++ [w]).filterMap (passingKey c) = (front ++ rest).filter (fun k => (s.find k).isSome) ↔
      ServedAhead s c w rest owed front := by
  induction front generalizing owed with
  | nil =>
    rw [List.nil_append, List.nil_append, filterMap_passingKey_cons, List.filterMap_nil, List.append_nil,
      ServedAhead, eq_comm]
  | cons k front ih =>
    rw [List.cons_append, List.cons_append, filterMap_passingKey_cons, ServedAhead]
    split_ifs with hheld
    · rw [List.filter_cons, if_pos hheld]
      constructor
      · intro h
        have hmem : k ∈ owed ++ ((passingKey c k).toList ++ (front ++ [w]).filterMap (passingKey c)) := by
          rw [h]
          exact List.mem_cons_self
        -- a key that is shown anywhere has an entry of its own
        have hself : passingKey c k = some k := by
          rcases List.mem_append.mp hmem with hmem | hmem
          · exact howed k hmem
          · rw [← filterMap_passingKey_cons] at hmem
            obtain ⟨k', -, hpass⟩ := List.mem_filterMap.mp hmem
            exact passingKey_self_of_some hpass
        refine ⟨hself, ?_⟩
        rw [hself, Option.toList_some, ← List.append_assoc] at h
        obtain ⟨later, hlater⟩ : ∃ later, owed ++ [k] = k :: later := by
          cases owed with
          | nil => exact ⟨[], rfl⟩
          | cons o owed => exact ⟨owed ++ [k], congrArg (· :: (owed ++ [k])) (List.cons.inj h).1⟩
        rw [hlater, List.cons_append, List.cons.injEq] at h
        exact ⟨later, hlater, (ih (owed_later howed hself hlater)).mp h.2⟩
      · rintro ⟨hself, later, hlater, h⟩
        rw [hself, Option.toList_some, ← List.append_assoc, hlater, List.cons_append,
          (ih (owed_later howed hself hlater)).mpr h]
    · rw [List.filter_cons, if_neg hheld, ← List.append_assoc]
      apply ih
      intro key hkey
      rcases List.mem_append.mp hkey with hkey | hkey
      · exact howed key hkey
      · exact passingKey_self_of_some (Option.mem_toList.mp hkey)

/-- What the keys that pass say behind a carriage return. -/
lemma passing_eq_held_split {front behind : List (List Byte)} {k : List Byte} (hfront : ∀ k' ∈ front, CR ∉ k')
    (hk : CR ∈ k) :
    (readWords (front ++ k :: behind)).filterMap (passingKey c) =
        (front ++ k :: behind).filter (fun key => (s.find key).isSome) ↔
      ServedUpTo s c front (k.takeWhile isKeyByte) (k :: behind) ∨
      (∃ k' ∈ front, LongerTwin c k') ∧
        ServedAhead s c (k.takeWhile isKeyByte) (k :: behind) [] front := by
  rw [readWords_split hfront hk]
  by_cases htwin : ∃ k' ∈ front, LongerTwin c k'
  · have hno : ¬ServedUpTo s c front (k.takeWhile isKeyByte) (k :: behind) := by
      obtain ⟨k', hk', hlonger⟩ := htwin
      exact fun hserved => (hserved.1 k' hk').2 hlonger
    simp only [hno, htwin, false_or, true_and]
    have hnothing : ∀ key ∈ ([] : List (List Byte)), passingKey c key = some key := by simp
    exact servedAhead_iff _ _ hnothing front
  · have hnone : ∀ k' ∈ front, ¬LongerTwin c k' := by
      push Not at htwin
      exact htwin
    simp only [htwin, false_and, or_false]
    exact servedUpTo_iff hc _ hnone

end Served

/-- The first key with a carriage return. -/
lemma exists_split {ks : List (List Byte)} (hcr : ∃ k ∈ ks, CR ∈ k) :
    ∃ front k behind, ks = front ++ k :: behind ∧ (∀ k' ∈ front, CR ∉ k') ∧ CR ∈ k := by
  have hsome : (ks.find? fun k => decide (CR ∈ k)).isSome := by simpa using hcr
  obtain ⟨k, hk⟩ := Option.isSome_iff_exists.mp hsome
  obtain ⟨hmem, front, behind, hsplit, hfront⟩ := List.find?_eq_some_iff_append.mp hk
  exact ⟨front, k, behind, hsplit, by simpa using hfront, by simpa using hmem⟩

/-- An answered request gets memcached's reply exactly when all its keys are served. With a carriage return
in a key, the keys in front of it are served and what passes for its first word is the only other key that is
held; or an entry of a longer key is shown for one of them, and it is asked for further behind in its turn. -/
theorem answered_get_transparent_iff {s : Store} {c : Cache} (hc : Mirrors s c) {hdr : List Byte}
    (hhdr : hdr.length = headersLen) {ks : List (List Byte)} (hne : ks ≠ [])
    (hkeys : ∀ k ∈ ks, IsKey k ∧ 0 ∉ k) (headroom : List Byte) (cpu : PerCpu)
    (htx : (runXdp Interference.quiet headroom (hdr ++ getLine ks) cpu c).1 = .tx) :
    getReply s (getLine ks) =
        some ((runXdp Interference.quiet headroom (hdr ++ getLine ks) cpu c).2.ctx.pkt.drop headersLen) ↔
      ((∀ k ∈ ks, CR ∉ k) → AllServed s c ks) ∧
      ∀ front k behind, ks = front ++ k :: behind → (∀ k' ∈ front, CR ∉ k') → CR ∈ k →
        ServedUpTo s c front (k.takeWhile isKeyByte) (k :: behind) ∨
        (∃ k' ∈ front, LongerTwin c k') ∧
          ServedAhead s c (k.takeWhile isKeyByte) (k :: behind) [] front := by
  have hisKey : ∀ k ∈ ks, IsKey k := fun k hk => (hkeys k hk).1
  rw [getReply_getLine s hne hkeys, Option.some.injEq, eq_comm, answer_eq hc hhdr hne hisKey htx,
    replyText_passing_iff hc]
  by_cases hcr : ∃ k ∈ ks, CR ∈ k
  · have hsome : ¬∀ k ∈ ks, CR ∉ k := by
      push Not
      exact hcr
    simp only [hsome, false_implies, true_and]
    constructor
    · rintro h front k behind rfl hfront hk
      exact (passing_eq_held_split hc hfront hk).mp h
    · intro h
      obtain ⟨front, k, behind, rfl, hfront, hk⟩ := exists_split hcr
      exact (passing_eq_held_split hc hfront hk).mpr (h front k behind rfl hfront hk)
  · have hnone : ∀ k ∈ ks, CR ∉ k := by
      push Not at hcr
      exact hcr
    rw [readWords_of_no_return hnone, ← allServed_iff hc]
    refine ⟨fun h => ⟨fun _ => h, ?_⟩, fun h => h.1 hnone⟩
    rintro front k behind rfl - hk
    exact absurd hk (hnone k (List.mem_append_right _ List.mem_cons_self))

/-! ### A held key that is not cached -/

theorem held_key_left_out :
    Mirrors ((Store.empty.set cachedItem).set otherItem) cachedItemCache ∧
    (IsKey cachedItem.key ∧ 0 ∉ cachedItem.key) ∧ (IsKey otherItem.key ∧ 0 ∉ otherItem.key) ∧
    sampleHeaders true ++ getLine [cachedItem.key, otherItem.key] =
      sampleRequest "get kkkkkkkkkkkk mmmmmmmmmmmm\r\n".toList ∧
    (runXdp Interference.quiet (List.replicate 256 0)
      (sampleHeaders true ++ getLine [cachedItem.key, otherItem.key]) PerCpu.zeroed cachedItemCache).1 = .tx ∧
    (runXdp Interference.quiet (List.replicate 256 0)
      (sampleHeaders true ++ getLine [cachedItem.key, otherItem.key]) PerCpu.zeroed
        cachedItemCache).2.ctx.pkt.drop headersLen = ascii "VALUE kkkkkkkkkkkk 0 3\r\nabc\r\nEND\r\n".toList ∧
    getReply ((Store.empty.set cachedItem).set otherItem) (getLine [cachedItem.key, otherItem.key]) =
      some (ascii "VALUE kkkkkkkkkkkk 0 3\r\nabc\r\nVALUE mmmmmmmmmmmm 0 3\r\nxyz\r\nEND\r\n".toList) := by
  refine ⟨cachedItemCache_mirrors rfl, ⟨cachedItem.isKey, by decide⟩, ⟨otherItem.isKey, by decide⟩, ?_⟩
  decide +kernel

/-- Of two keys memcached holds the one that is cached. -/
theorem cached_key_answered :
    getReply (Store.empty.set cachedItem) (getLine [cachedItem.key, otherItem.key]) =
      some ((runXdp Interference.quiet (List.replicate 256 0)
        (sampleHeaders true ++ getLine [cachedItem.key, otherItem.key]) PerCpu.zeroed
        cachedItemCache).2.ctx.pkt.drop headersLen) := by
  have hrun : (runXdp Interference.quiet (List.replicate 256 0)
        (sampleHeaders true ++ getLine [cachedItem.key, otherItem.key]) PerCpu.zeroed cachedItemCache).1 =
        .tx ∧
      ((cachedItemCache.at (fnv1aHash32 cachedItem.key)).valid = true ∧
        entryKey (cachedItemCache.at (fnv1aHash32 cachedItem.key)) = cachedItem.key) ∧
      (cachedItemCache.at (fnv1aHash32 otherItem.key)).valid = false := by decide +kernel
  obtain ⟨htx, hentry, hother⟩ := hrun
  have hnone : ∀ k ∈ [cachedItem.key, otherItem.key], CR ∉ k := by decide
  have hkeys : ∀ k ∈ [cachedItem.key, otherItem.key], IsKey k ∧ 0 ∉ k := by
    intro k hk
    rcases List.mem_pair.mp hk with rfl | rfl
    · exact ⟨cachedItem.isKey, by decide⟩
    · exact ⟨otherItem.isKey, by decide⟩
  refine (answered_get_transparent_iff (cachedItemCache_mirrors rfl) (by decide) (by simp) hkeys _ _ htx).mpr
    ⟨?_, ?_⟩
  · intro _ k hk
    rcases List.mem_pair.mp hk with rfl | rfl
    · refine ⟨fun _ => hentry, ?_⟩
      rintro ⟨-, -, -, hne⟩
      exact hne hentry.2.symm
    · refine ⟨fun hheld => absurd hheld (by decide), ?_⟩
      rintro ⟨hvalid, -⟩
      exact absurd (hvalid.symm.trans hother) (by decide)
  · rintro front k behind hsplit - hk
    exact absurd hk (hnone k (hsplit ▸ List.mem_append_right _ List.mem_cons_self))

end BmcCache.Proofs
