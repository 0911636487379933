import BmcCache.Lib.OnesComplement
import BmcCache.Proofs.ReplyForm

/-!
# The IP checksum of a reply

`compute_ip_checksum` adds the ten words of the header, folds the carries once and takes the
complement. The receiver adds the words with all carries. The two agree exactly when the one
fold leaves no carry.
-/

namespace BmcCache.Proofs

open Buffer OnesComplement

/-- Word `i` of a header, in network order or in the order of a little-endian machine. -/
def headerWord (network : Bool) (ip : List Byte) (i : ℕ) : ℕ :=
  if network then be16At ip (2 * i) else (byteAt ip (2 * i)).toNat + 256 * (byteAt ip (2 * i + 1)).toNat

def headerSum (network : Bool) (ip : List Byte) : ℕ :=
  ((List.range (sizeofIphdr / 2)).map (headerWord network ip)).sum

/-- The header after the assignment `ip->check = compute_ip_checksum(ip)`. -/
def withChecksum (ip : List Byte) : List Byte := overwrite ip 10 (le16 (computeIpChecksum ip))

lemma byteAt_overwrite {ip : List Byte} {off : ℕ} (h : off + 2 ≤ ip.length) (b₀ b₁ : Byte) (i : ℕ) :
    byteAt (overwrite ip off [b₀, b₁]) i = if i = off then b₀ else if i = off + 1 then b₁
      else byteAt ip i := by
  have hlen : (ip.take off).length = off := by
    rw [List.length_take]
    omega
  simp only [byteAt, overwrite, List.getD_eq_getElem?_getD]
  split_ifs with h1 h2
  · rw [List.append_assoc, List.getElem?_append_right (by omega), hlen, h1]
    simp
  · rw [List.append_assoc, List.getElem?_append_right (by omega), hlen, h2]
    simp
  · congr 1
    rcases Nat.lt_or_ge i off with hi | hi
    · rw [List.append_assoc, List.getElem?_append_left (by omega), List.getElem?_take_of_lt hi]
    · rw [List.getElem?_append_right (by simp; omega), List.getElem?_drop]
      congr 1
      simp
      omega

section Header

variable {ip : List Byte} (h : ip.length = sizeofIphdr)

include h

/-- The word at the place of the checksum is added to the sum of the others. -/
lemma headerSum_check {n : ℕ} (hn : n < 2 ^ 16) :
    headerSum false (overwrite ip 10 (le16 n)) = headerSum false (overwrite ip 10 [0, 0]) + n := by
  have hoff : 10 + 2 ≤ ip.length := by
    rw [h]
    decide
  have hlo : (n % 256).toUInt8.toNat = n % 256 := by simp
  have hhi : (n / 256 % 256).toUInt8.toNat = n / 256 := by
    simp
    omega
  have hrange : List.range (sizeofIphdr / 2) = [0, 1, 2, 3, 4, 5, 6, 7, 8, 9] := rfl
  simp only [headerSum, hrange, List.map_cons, List.map_nil, List.sum_cons, List.sum_nil, headerWord,
    Bool.false_eq_true, if_false, le16, byteAt_overwrite hoff, Nat.reduceMul, Nat.reduceAdd, Nat.reduceEqDiff,
    if_true, hlo, hhi, UInt8.toNat_zero]
  omega

end Header

lemma headerSum_le (ip : List Byte) : headerSum false ip ≤ 655350 := by
  have hrange : List.range (sizeofIphdr / 2) = [0, 1, 2, 3, 4, 5, 6, 7, 8, 9] := rfl
  have hbyte (i : ℕ) : (byteAt ip i).toNat ≤ 255 := Nat.le_of_lt_succ (UInt8.toNat_lt _)
  have hword (i : ℕ) : headerWord false ip i ≤ 65535 := by
    have h0 := hbyte (2 * i)
    have h1 := hbyte (2 * i + 1)
    simp only [headerWord, Bool.false_eq_true, if_false]
    omega
  simp only [headerSum, hrange, List.map_cons, List.map_nil, List.sum_cons, List.sum_nil]
  have := hword 0
  have := hword 1
  have := hword 2
  have := hword 3
  have := hword 4
  have := hword 5
  have := hword 6
  have := hword 7
  have := hword 8
  have := hword 9
  omega

lemma computeIpChecksum_eq (ip : List Byte) :
    computeIpChecksum ip = 2 ^ 16 - 1 - (headerSum false (overwrite ip 10 [0, 0]) % 2 ^ 16 +
      headerSum false (overwrite ip 10 [0, 0]) / 2 ^ 16) % 2 ^ 16 := by
  have hle := headerSum_le (overwrite ip 10 [0, 0])
  have hsum : ∀ (l : List ℕ) (acc : ℕ),
      acc + (l.map (headerWord false (overwrite ip 10 [0, 0]))).sum < 2 ^ 32 →
      l.foldl (fun acc i => (acc + ((byteAt (overwrite ip 10 [0, 0]) (2 * i)).toNat +
        256 * (byteAt (overwrite ip 10 [0, 0]) (2 * i + 1)).toNat)) % 2 ^ 32) acc =
        acc + (l.map (headerWord false (overwrite ip 10 [0, 0]))).sum := by
    intro l
    induction l with
    | nil => simp
    | cons i l ih =>
      intro acc hacc
      rw [List.map_cons, List.sum_cons, ← Nat.add_assoc] at hacc
      have hword : (byteAt (overwrite ip 10 [0, 0]) (2 * i)).toNat +
          256 * (byteAt (overwrite ip 10 [0, 0]) (2 * i + 1)).toNat =
          headerWord false (overwrite ip 10 [0, 0]) i := rfl
      rw [List.foldl_cons, hword, Nat.mod_eq_of_lt (by omega), ih _ hacc, List.map_cons, List.sum_cons,
        Nat.add_assoc]
  have htotal := hsum (List.range (sizeofIphdr / 2)) 0 (by
    rw [Nat.zero_add]
    exact lt_of_le_of_lt hle (by decide))
  rw [Nat.zero_add] at htotal
  simp only [computeIpChecksum]
  rw [htotal]
  rfl

/-- Both orders of the bytes give the same residues up to the factor 256. -/
lemma headerSum_swap (ip : List Byte) : ∃ k, 256 * headerSum true ip = 65535 * k + headerSum false ip := by
  simp only [headerSum]
  induction List.range (sizeofIphdr / 2) with
  | nil => exact ⟨0, rfl⟩
  | cons i l ih =>
    obtain ⟨k, hk⟩ := ih
    refine ⟨k + (byteAt ip (2 * i)).toNat, ?_⟩
    simp only [List.map_cons, List.sum_cons, headerWord, be16At, if_true, Bool.false_eq_true,
      if_false] at hk ⊢
    omega

lemma headerSum_eq_zero_iff (network : Bool) (ip : List Byte) :
    headerSum network ip = 0 ↔ headerSum false ip = 0 := by
  cases network with
  | false => rfl
  | true =>
    simp only [headerSum]
    induction List.range (sizeofIphdr / 2) with
    | nil => rfl
    | cons i l ih =>
      simp only [List.map_cons, List.sum_cons, Nat.add_eq_zero_iff, ih]
      simp only [headerWord, be16At, if_true, Bool.false_eq_true, if_false]
      omega

lemma dvd_headerSum_iff (network : Bool) (ip : List Byte) :
    65535 ∣ headerSum network ip ↔ 65535 ∣ headerSum false ip := by
  cases network with
  | false => rfl
  | true =>
    obtain ⟨k, hk⟩ := headerSum_swap ip
    have hcop : Nat.Coprime 65535 256 := by decide
    rw [← hcop.dvd_mul_left, hk]
    exact Nat.dvd_add_right (Dvd.intro _ rfl)

/-- The receiver accepts the checksum exactly when folding the carries of the sum of the other
words once leaves no carry. -/
theorem withChecksum_sum_iff {ip : List Byte} (h : ip.length = sizeofIphdr) (network : Bool) :
    endAround (2 ^ 16) (headerSum network (withChecksum ip)) = 0xFFFF ↔
      headerSum false (overwrite ip 10 [0, 0]) % 2 ^ 16 +
        headerSum false (overwrite ip 10 [0, 0]) / 2 ^ 16 < 2 ^ 16 := by
  have hle := headerSum_le (overwrite ip 10 [0, 0])
  have hcheck : computeIpChecksum ip < 2 ^ 16 := by
    rw [computeIpChecksum_eq]
    omega
  have hsum : headerSum false (withChecksum ip) =
      headerSum false (overwrite ip 10 [0, 0]) + computeIpChecksum ip := headerSum_check h hcheck
  have hmax := endAround_eq_max_iff (M := 2 ^ 16) (by decide) (headerSum network (withChecksum ip))
  have hfold := dvd_add_complement_iff (M := 2 ^ 16) (S := headerSum false (overwrite ip 10 [0, 0]))
    (by decide) (by omega)
  rw [computeIpChecksum_eq] at hsum
  rw [show (0xFFFF : ℕ) = 2 ^ 16 - 1 from rfl, hmax, ne_eq, headerSum_eq_zero_iff]
  rw [show 2 ^ 16 - 1 = 65535 from rfl] at hfold hsum ⊢
  rw [dvd_headerSum_iff, hsum, hfold]
  constructor
  · exact fun hboth => hboth.2
  · intro hlt
    exact ⟨by omega, hlt⟩

/-! ### The header of a transmitted reply -/

section Reply

variable {frame : List Byte} (h : headersLen ≤ frame.length) (total : ℕ) (rest : List Byte)

include h

/-- In the header of a reply the checksum is that of the header itself. -/
lemma withChecksum_replyHeader :
    slice (replyHeader frame total ++ rest) ethHlen sizeofIphdr =
      withChecksum (slice (replyHeader frame total ++ rest) ethHlen sizeofIphdr) := by
  rw [← headerFields_swappedHeaders h, swappedHeaders, ← bytes_headerBytes h, HeaderBytes.swapAddresses_bytes,
    HeaderBytes.headerFields_bytes]
  generalize (headerBytes frame h).swapped = hdr
  generalize hcheck : (hdr.finished total).check = check
  have hlen : check.length = 2 := hcheck ▸ (hdr.finished total).length_check
  have hslice := slice_field (hdr.dst ++ (hdr.src ++ hdr.ty)) (hdr.ipWith total check)
    (hdr.sport ++ (hdr.dport ++
    (htons (total - 34) ++ ([0, 0] ++ (hdr.mc ++ rest)))))
  have hsum := computeIpChecksum_check (hdr.ver ++ (htons (total - 14) ++ hdr.mid)) check
    (hdr.saddr ++ hdr.daddr) (by simp [length_htons]) hlen
  have hwritten (n : ℕ) := overwrite_field (hdr.ver ++ (htons (total - 14) ++ hdr.mid)) check (le16 n)
    (hdr.saddr ++ hdr.daddr) hlen.symm
  simp only [List.append_assoc, List.length_append, HeaderBytes.length_dst, HeaderBytes.length_src,
    HeaderBytes.length_ty, HeaderBytes.length_ver, HeaderBytes.length_mid, HeaderBytes.length_saddr,
    HeaderBytes.length_daddr, length_htons, hlen, HeaderBytes.ipWith, Nat.reduceAdd] at hslice hsum hwritten
  have hip : slice ((hdr.finished total).bytes ++ rest) ethHlen sizeofIphdr =
      hdr.ver ++ (htons (total - 14) ++ (hdr.mid ++ (check ++ (hdr.saddr ++ hdr.daddr)))) := by
    rw [← hslice, ← hcheck]
    simp only [HeaderBytes.bytes, HeaderBytes.finished, List.append_assoc]
  rw [hip, withChecksum, hsum, hwritten, ← hcheck]
  rfl

/-- The first word behind the version is the length. -/
lemma headerWord_replyHeader :
    headerWord true (slice (replyHeader frame total ++ rest) ethHlen sizeofIphdr) 1 =
    (total - 14) % 2 ^ 16 := by
  have hbyte : ∀ i < sizeofIphdr, byteAt (slice (replyHeader frame total ++ rest) ethHlen sizeofIphdr) i =
      byteAt (replyHeader frame total ++ rest) (ethHlen + i) := by
    intro i hi
    simp only [byteAt, List.getD_eq_getElem?_getD, slice, List.getElem?_take_of_lt hi, List.getElem?_drop]
  rw [← (lengths_replyHeader h total rest).1]
  simp only [headerWord, if_true, be16At]
  rw [hbyte 2 (by decide), hbyte 3 (by decide)]

end Reply

/-- The IP header of every reply holds the length of the reply and the checksum of the header itself. -/
theorem reply_withChecksum {env : Interference} {headroom frame : List Byte} {cpu : PerCpu} {c : Cache}
    (htx : (runXdp env headroom frame cpu c).1 = .tx) {pkt ip : List Byte}
    (hpkt : pkt = (runXdp env headroom frame cpu c).2.ctx.pkt) (hip : ip = slice pkt ethHlen sizeofIphdr) :
    ip = withChecksum ip ∧ headerWord true ip 1 = pkt.length - ethHlen := by
  obtain ⟨hframe, i, b, ks, -, -, -, -, hsent⟩ := runXdp_sent htx
  have hshort := length_sent_lt htx
  rw [← hpkt] at hsent hshort
  have hlen : pkt.length = headersLen + (blocks (seen env c) (i + 3) ks).length + 5 := by
    rw [hsent, List.length_append, length_replyHeader hframe, List.length_append, length_replyEnd]
    omega
  rw [← hlen] at hsent
  have hcheck := withChecksum_replyHeader hframe pkt.length (blocks (seen env c) (i + 3) ks ++ replyEnd)
  have hword := headerWord_replyHeader hframe pkt.length (blocks (seen env c) (i + 3) ks ++ replyEnd)
  rw [← hsent, ← hip] at hcheck hword
  rw [Nat.mod_eq_of_lt (by omega)] at hword
  exact ⟨hcheck, hword⟩

/-- The header of a reply of 87 bytes from 192.168.0.1 to 192.168.0.2, with identification
`0xBA50`: the sum of its other words is 131071, whose fold is `2^16`. -/
def carryHeader : List Byte :=
  [69, 0, 0, 73, 186, 80, 64, 0, 64, 17, 0, 0, 192, 168, 0, 1, 192, 168, 0, 2]

theorem carryHeader_rejected :
    endAround (2 ^ 16) (headerSum true (withChecksum carryHeader)) ≠ 0xFFFF ∧
      endAround (2 ^ 16) (headerSum false (withChecksum carryHeader)) ≠ 0xFFFF := by
  have hmax (n : ℕ) := endAround_eq_max_iff (M := 2 ^ 16) (by decide) n
  constructor
  · rw [show (0xFFFF : ℕ) = 2 ^ 16 - 1 from rfl, ne_eq, hmax]
    decide
  · rw [show (0xFFFF : ℕ) = 2 ^ 16 - 1 from rfl, ne_eq, hmax]
    decide

theorem sampleHeader_accepted :
    endAround (2 ^ 16) (headerSum true (withChecksum (slice (sampleHeaders true) ethHlen sizeofIphdr))) =
    0xFFFF :=
  (withChecksum_sum_iff (by decide) true).mpr (by decide)

end BmcCache.Proofs
