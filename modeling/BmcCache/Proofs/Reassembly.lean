import BmcCache.Lib.Pieces
import BmcCache.Proofs.Commands

/-!
# Replies of several datagrams

What a client does with the datagrams that it receives: those with its request id are taken in the order of
their sequence numbers, as many as each says there are.
-/

namespace BmcCache.Proofs

open Pieces

/-- The client of the UDP protocol. -/
def reassemble (requestId : ℕ) (arrived : List (List Byte)) : Option (List Byte) :=
  match arrived.filter fun d => be16At d 0 == requestId with
  | [] => none
  | d :: ds => gather (fun d => be16At d 2) (List.drop udpHeaderSize) (d :: ds) 0 (be16At d 4)

section Header

variable {requestId i n : ℕ}

lemma toUInt8_word (h : n < 2 ^ 16) : (n / 256).toUInt8.toNat * 256 + (n % 256).toUInt8.toNat = n := by
  have hhigh : (n / 256).toUInt8.toNat = n / 256 := Nat.mod_eq_of_lt (by omega)
  have hlow : (n % 256).toUInt8.toNat = n % 256 := Nat.mod_eq_of_lt (Nat.mod_lt n (by decide))
  rw [hhigh, hlow]
  omega

/-- What the header of a datagram says. -/
lemma be16At_udpHeader (hid : requestId < 2 ^ 16) (hi : i < 2 ^ 16) (hn : n < 2 ^ 16) (text : List Byte) :
    be16At (udpHeader requestId i n ++ text) 0 = requestId ∧ be16At (udpHeader requestId i n ++ text) 2 = i ∧
      be16At (udpHeader requestId i n ++ text) 4 = n :=
  ⟨toUInt8_word hid, toUInt8_word hi, toUInt8_word hn⟩

end Header

/-! ### The datagrams of a reply -/

/-- The connection when the headers are filled in, for a reply of items or of one line. -/
lemma datagrams_eq (requestId : ℕ) (r : Reply) :
    ∃ c, Holds c r.text ∧ r.datagrams requestId = buildUdpHeaders c requestId := by
  cases r with
  | items its =>
    obtain ⟨h, hk⟩ := foldl_addItem_holds holds_fresh spare_fresh its
    rw [List.nil_append] at h
    exact ⟨_, (addIov_holds h hk getEnd).1, rfl⟩
  | line text =>
    have h := (addIov_holds holds_fresh spare_fresh (text ++ crlf)).1
    rw [List.nil_append] at h
    exact ⟨_, h, rfl⟩

section Datagrams

variable {requestId : ℕ} {r : Reply}

lemma getElem_datagrams {c : Conn} {i : ℕ} (hi : i < (buildUdpHeaders c requestId).length) :
    ∃ text, (buildUdpHeaders c requestId)[i] = udpHeader requestId i
    (buildUdpHeaders c requestId).length ++ text := by
  have hlen : (buildUdpHeaders c requestId).length = c.before.length + 1 := by simp [buildUdpHeaders]
  rw [hlen]
  simp only [buildUdpHeaders, List.getElem_mapIdx]
  exact ⟨_, rfl⟩

/-- Every datagram tells the request, its own number and how many there are. -/
lemma datagrams_header (hid : requestId < 2 ^ 16) (hfew : (r.datagrams requestId).length < 2 ^ 16) {i : ℕ}
    (hi : i < (r.datagrams requestId).length) :
    be16At (r.datagrams requestId)[i] 0 = requestId ∧ be16At (r.datagrams requestId)[i] 2 = i ∧
      be16At (r.datagrams requestId)[i] 4 = (r.datagrams requestId).length := by
  obtain ⟨c, -, heq⟩ := datagrams_eq requestId r
  obtain ⟨text, htext⟩ := getElem_datagrams (c := c) (heq ▸ hi)
  have hget : (r.datagrams requestId)[i] = udpHeader requestId i (r.datagrams requestId).length ++ text := by
    rw [List.getElem_of_eq heq, htext, heq]
  rw [hget]
  exact be16At_udpHeader hid (hi.trans hfew) hfew text

lemma datagrams_text : ((r.datagrams requestId).map (List.drop udpHeaderSize)).flatten = r.text := by
  obtain ⟨c, hholds, heq⟩ := datagrams_eq requestId r
  rw [heq, map_drop_buildUdpHeaders, List.map_append, List.map_singleton, List.flatten_append,
    List.flatten_singleton]
  exact hholds.text

lemma datagrams_ne_nil : r.datagrams requestId ≠ [] := by
  obtain ⟨c, -, heq⟩ := datagrams_eq requestId r
  rw [heq]
  apply List.ne_nil_of_length_pos
  simp [buildUdpHeaders]

lemma numbered_datagrams (hid : requestId < 2 ^ 16) (hfew : (r.datagrams requestId).length < 2 ^ 16) :
    Numbered (fun d => be16At d 2) (r.datagrams requestId) :=
  fun _ hi => (datagrams_header hid hfew hi).2.1

/-- Whatever arrives in between, in whatever order and how often, the client has the reply when it has all
datagrams of it, and knows when it has not. -/
theorem datagrams_reassemble (hid : requestId < 2 ^ 16) (hfew : (r.datagrams requestId).length < 2 ^ 16)
    {arrived : List (List Byte)} (hown : ∀ d ∈ arrived, be16At d 0 = requestId → d ∈ r.datagrams requestId) :
    ((∀ d ∈ r.datagrams requestId, d ∈ arrived) → reassemble requestId arrived = some r.text) ∧
      ((∃ d ∈ r.datagrams requestId, d ∉ arrived) → reassemble requestId arrived = none) := by
  have hnum := @numbered_datagrams requestId r hid hfew
  have hmem : ∀ d ∈ r.datagrams requestId, d ∈ arrived → d ∈ arrived.filter fun d =>
      be16At d 0 == requestId := by
    intro d hd harrived
    obtain ⟨i, hi, rfl⟩ := List.getElem_of_mem hd
    rw [List.mem_filter, (datagrams_header hid hfew hi).1]
    exact ⟨harrived, beq_self_eq_true requestId⟩
  have hsent : ∀ d ∈ arrived.filter fun d => be16At d 0 == requestId, d ∈ r.datagrams requestId := by
    intro d hd
    rw [List.mem_filter, beq_iff_eq] at hd
    exact hown d hd.1 hd.2
  have harrived : ∀ d ∈ arrived.filter fun d => be16At d 0 == requestId, d ∈ arrived :=
    fun d hd => (List.mem_filter.mp hd).1
  unfold reassemble
  cases hfilter : arrived.filter fun d => be16At d 0 == requestId with
  | nil =>
    refine ⟨fun hall => ?_, fun _ => rfl⟩
    obtain ⟨d, hd⟩ := List.exists_mem_of_ne_nil _ (@datagrams_ne_nil requestId r)
    have hin := hmem d hd (hall d hd)
    rw [hfilter] at hin
    exact absurd hin List.not_mem_nil
  | cons d ds =>
    rw [hfilter] at hmem hsent harrived
    have htotal : be16At d 4 = (r.datagrams requestId).length := by
      obtain ⟨i, hi, rfl⟩ := List.getElem_of_mem (hsent d List.mem_cons_self)
      exact (datagrams_header hid hfew hi).2.2
    dsimp only
    rw [htotal]
    constructor
    · intro hall
      rw [gather_all hnum hsent (fun d' hd' => hmem d' hd' (hall d' hd')) (Nat.zero_add _), List.drop_zero,
        datagrams_text]
    · rintro ⟨d', hd', hmissing⟩
      obtain ⟨j, hj, rfl⟩ := List.getElem_of_mem hd'
      have hnot : (r.datagrams requestId)[j] ∉ d :: ds := fun hin => hmissing (harrived _ hin)
      exact gather_missing hnum hsent (Nat.zero_le j) (by omega) hj hnot

end Datagrams

def longLine : Reply := .line (List.replicate 1400 (chr 'x'))

/-- The two datagrams of a line, the second one first and twice, and one of another reply. -/
def mixedArrivals : List (List Byte) :=
  (longLine.datagrams 7).drop 1 ++ ((Reply.items []).datagrams 8 ++
    ((longLine.datagrams 7).take 1 ++ (longLine.datagrams 7).drop 1))

theorem mixedArrivals_reassembled :
    reassemble 7 mixedArrivals = some (List.replicate 1400 (chr 'x') ++ crlf) := by
  have hfew : (longLine.datagrams 7).length < 2 ^ 16 ∧ ((Reply.items []).datagrams 8).length < 2 ^ 16 := by
    decide +kernel
  have hown : ∀ d ∈ mixedArrivals, be16At d 0 = 7 → d ∈ longLine.datagrams 7 := by
    intro d hd hid
    simp only [mixedArrivals, List.mem_append] at hd
    rcases hd with hd | hd | hd | hd
    · exact (List.drop_sublist 1 _).subset hd
    · obtain ⟨i, hi, rfl⟩ := List.getElem_of_mem hd
      have hother := (@datagrams_header 8 (.items []) (by decide) hfew.2 i hi).1
      exact absurd (hother.symm.trans hid) (by decide)
    · exact (List.take_sublist 1 _).subset hd
    · exact (List.drop_sublist 1 _).subset hd
  have hall : ∀ d ∈ longLine.datagrams 7, d ∈ mixedArrivals := by
    intro d hd
    rw [← List.take_append_drop 1 (longLine.datagrams 7)] at hd
    exact List.mem_append_right _ (List.mem_append_right _ hd)
  exact (datagrams_reassemble (by decide) hfew.1 hown).1 hall

end BmcCache.Proofs
