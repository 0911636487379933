import BmcCache.Proofs.Verdicts

/-!
# The form of a reply

The frame `bmc_write_reply_main` transmits, down to the single header fields: addresses
and ports exchanged, lengths and checksums set, then the blocks and the end marker.
-/

namespace BmcCache.Proofs

open Buffer

/-- The headers of a reply of `total` bytes: addresses and ports of the request exchanged, the
lengths and the checksums set, everything else as in the request. -/
def replyHeader (frame : List Byte) (total : ℕ) : List Byte :=
  let ip := fun check => slice frame 14 2 ++ (htons (total - 14) ++ (slice frame 18 6 ++ (check ++
    (slice frame 30 4 ++ slice frame 26 4))))
  slice frame 6 6 ++ (slice frame 0 6 ++ (slice frame 12 2 ++ (ip (le16 (computeIpChecksum (ip [0, 0]))) ++
    (slice frame 36 2 ++ (slice frame 34 2 ++ (htons (total - 34) ++ ([0, 0] ++ slice frame 42 8)))))))

lemma computeIpChecksum_check (a check b : List Byte) (ha : a.length = 10) (hc : check.length = 2) :
    computeIpChecksum (a ++ (check ++ b)) = computeIpChecksum (a ++ ([0, 0] ++ b)) := by
  have h1 := overwrite_field a check [0, 0] b (by rw [hc]; rfl)
  have h2 := overwrite_field a [0, 0] [0, 0] b rfl
  rw [ha] at h1 h2
  unfold computeIpChecksum
  rw [h1, h2]

/-- The header bytes of a datagram cut into the fields the programs touch: `mid` runs from the
identification to the protocol, `mc` is memcached's own header. -/
structure HeaderBytes where
  dst : List Byte
  src : List Byte
  ty : List Byte
  ver : List Byte
  tot : List Byte
  mid : List Byte
  check : List Byte
  saddr : List Byte
  daddr : List Byte
  sport : List Byte
  dport : List Byte
  ulen : List Byte
  ucheck : List Byte
  mc : List Byte
  length_dst : dst.length = 6
  length_src : src.length = 6
  length_ty : ty.length = 2
  length_ver : ver.length = 2
  length_tot : tot.length = 2
  length_mid : mid.length = 6
  length_check : check.length = 2
  length_saddr : saddr.length = 4
  length_daddr : daddr.length = 4
  length_sport : sport.length = 2
  length_dport : dport.length = 2
  length_ulen : ulen.length = 2
  length_ucheck : ucheck.length = 2

namespace HeaderBytes

attribute [simp] length_dst length_src length_ty length_ver length_tot length_mid length_check length_saddr
  length_daddr length_sport length_dport length_ulen length_ucheck

def bytes (h : HeaderBytes) : List Byte :=
  h.dst ++ (h.src ++ (h.ty ++ (h.ver ++ (h.tot ++ (h.mid ++ (h.check ++ (h.saddr ++ (h.daddr ++
    (h.sport ++ (h.dport ++ (h.ulen ++ (h.ucheck ++ h.mc))))))))))))

def swapped (h : HeaderBytes) : HeaderBytes where
  __ := h
  dst := h.src
  src := h.dst
  saddr := h.daddr
  daddr := h.saddr
  sport := h.dport
  dport := h.sport
  length_dst := h.length_src
  length_src := h.length_dst
  length_saddr := h.length_daddr
  length_daddr := h.length_saddr
  length_sport := h.length_dport
  length_dport := h.length_sport

def ipWith (h : HeaderBytes) (total : ℕ) (check : List Byte) : List Byte :=
  h.ver ++ (htons (total - 14) ++ (h.mid ++ (check ++ (h.saddr ++ h.daddr))))

def finished (h : HeaderBytes) (total : ℕ) : HeaderBytes where
  __ := h
  tot := htons (total - 14)
  check := le16 (computeIpChecksum (h.ipWith total [0, 0]))
  ulen := htons (total - 34)
  ucheck := [0, 0]
  length_tot := rfl
  length_check := rfl
  length_ulen := rfl
  length_ucheck := rfl

lemma swapAddresses_bytes (h : HeaderBytes) : swapAddresses h.bytes = h.swapped.bytes := by
  have hmac := swapFields_fields [] h.dst [] h.src (h.ty ++ (h.ver ++ (h.tot ++ (h.mid ++ (h.check ++
    (h.saddr ++ (h.daddr ++ (h.sport ++ (h.dport ++ (h.ulen ++ (h.ucheck ++ h.mc))))))))))) (by simp)
  have hip := swapFields_fields (h.src ++ (h.dst ++ (h.ty ++ (h.ver ++ (h.tot ++ (h.mid ++ h.check))))))
    h.saddr [] h.daddr (h.sport ++ (h.dport ++ (h.ulen ++ (h.ucheck ++ h.mc)))) (by simp)
  have hport := swapFields_fields (h.src ++ (h.dst ++ (h.ty ++ (h.ver ++ (h.tot ++ (h.mid ++ (h.check ++
    (h.daddr ++ h.saddr)))))))) h.sport [] h.dport (h.ulen ++ (h.ucheck ++ h.mc)) (by simp)
  simp only [List.nil_append, List.append_assoc, List.length_append, List.length_nil, length_dst, length_src,
    length_ty, length_ver, length_tot, length_mid, length_check, length_saddr, length_daddr, length_sport,
    Nat.reduceAdd] at hmac hip hport
  change swapFields (swapFields (swapFields h.bytes 0 6 6) 26 30 4) 34 36 2 = _
  unfold bytes
  rw [hmac, hip, hport]
  rfl

lemma headerFields_bytes (h : HeaderBytes) (total : ℕ) :
    headerFields h.bytes total = (h.finished total).bytes := by
  have h1 := overwrite_field (h.dst ++ (h.src ++ (h.ty ++ h.ver))) h.tot (htons (total - 14)) (h.mid ++
    (h.check ++ (h.saddr ++ (h.daddr ++ (h.sport ++ (h.dport ++ (h.ulen ++ (h.ucheck ++ h.mc))))))))
    h.length_tot.symm
  have hslice := slice_field (h.dst ++ (h.src ++ h.ty)) (h.ipWith total h.check) (h.sport ++ (h.dport ++
    (h.ulen ++ (h.ucheck ++ h.mc))))
  have hsum : computeIpChecksum (h.ipWith total h.check) = computeIpChecksum (h.ipWith total [0, 0]) := by
    have h := computeIpChecksum_check (h.ver ++ (htons (total - 14) ++ h.mid)) h.check (h.saddr ++ h.daddr)
      (by simp [length_htons]) h.length_check
    simpa only [ipWith, List.append_assoc] using h
  have h2 (n : ℕ) := overwrite_field (h.dst ++ (h.src ++ (h.ty ++ (h.ver ++ (htons (total - 14) ++ h.mid)))))
    h.check (le16 n) (h.saddr ++ (h.daddr ++ (h.sport ++ (h.dport ++ (h.ulen ++ (h.ucheck ++ h.mc))))))
    h.length_check.symm
  have h3 (n : ℕ) := overwrite_field (h.dst ++ (h.src ++ (h.ty ++ (h.ver ++ (htons (total - 14) ++ (h.mid ++
    (le16 n ++ (h.saddr ++ (h.daddr ++ (h.sport ++ (h.dport ++ h.ulen))))))))))) h.ucheck [0, 0] h.mc
    h.length_ucheck.symm
  have h4 (n : ℕ) := overwrite_field (h.dst ++ (h.src ++ (h.ty ++ (h.ver ++ (htons (total - 14) ++ (h.mid ++
    (le16 n ++ (h.saddr ++ (h.daddr ++ (h.sport ++ h.dport)))))))))) h.ulen (htons (total - 34))
    ([0, 0] ++ h.mc) h.length_ulen.symm
  simp only [List.append_assoc, List.length_append, length_dst, length_src, length_ty,
    length_ver, length_htons, length_mid, length_check, length_le16, length_saddr, length_daddr,
    length_sport, length_dport, length_ulen, ipWith, Nat.reduceAdd] at h1 h2 h3 h4 hslice hsum
  change overwrite (overwrite (overwrite (overwrite h.bytes 16 _) 24 _) 40 [0, 0]) 38 (htons (total - 34)) = _
  unfold bytes
  rw [h1, hslice, hsum, h2, h3, h4]
  rfl

end HeaderBytes

/-- The fields of the headers in front of a request. -/
def headerBytes (frame : List Byte) (h : headersLen ≤ frame.length) : HeaderBytes :=
  have hslice : ∀ i n, i + n ≤ headersLen → (slice frame i n).length = n := fun _ _ hin =>
    length_slice (hin.trans h)
  { dst := slice frame 0 6
    src := slice frame 6 6
    ty := slice frame 12 2
    ver := slice frame 14 2
    tot := slice frame 16 2
    mid := slice frame 18 6
    check := slice frame 24 2
    saddr := slice frame 26 4
    daddr := slice frame 30 4
    sport := slice frame 34 2
    dport := slice frame 36 2
    ulen := slice frame 38 2
    ucheck := slice frame 40 2
    mc := slice frame 42 8
    length_dst := hslice 0 6 (by decide)
    length_src := hslice 6 6 (by decide)
    length_ty := hslice 12 2 (by decide)
    length_ver := hslice 14 2 (by decide)
    length_tot := hslice 16 2 (by decide)
    length_mid := hslice 18 6 (by decide)
    length_check := hslice 24 2 (by decide)
    length_saddr := hslice 26 4 (by decide)
    length_daddr := hslice 30 4 (by decide)
    length_sport := hslice 34 2 (by decide)
    length_dport := hslice 36 2 (by decide)
    length_ulen := hslice 38 2 (by decide)
    length_ucheck := hslice 40 2 (by decide) }

lemma bytes_headerBytes {frame : List Byte} (h : headersLen ≤ frame.length) :
    (headerBytes frame h).bytes = frame.take headersLen := by
  simp (disch := rfl) only [headerBytes, HeaderBytes.bytes, slice_append_slice, Nat.reduceAdd]
  rfl

lemma headerFields_swappedHeaders {frame : List Byte} (h : headersLen ≤ frame.length) (total : ℕ) :
    headerFields (swappedHeaders frame) total = replyHeader frame total := by
  rw [swappedHeaders, ← bytes_headerBytes h, HeaderBytes.swapAddresses_bytes, HeaderBytes.headerFields_bytes]
  simp only [headerBytes, HeaderBytes.swapped, HeaderBytes.finished, HeaderBytes.bytes, HeaderBytes.ipWith,
    replyHeader, List.append_assoc]

lemma length_replyHeader {frame : List Byte} (h : headersLen ≤ frame.length) (total : ℕ) :
    (replyHeader frame total).length = headersLen := by
  have hhdr : (frame.take headersLen).length = headersLen := by
    rw [List.length_take]
    omega
  rw [← headerFields_swappedHeaders h]
  exact length_headerFields (length_swapAddresses hhdr) total

/-- The length fields of the answering headers. -/
lemma lengths_replyHeader {frame : List Byte} (h : headersLen ≤ frame.length) (total : ℕ) (rest : List Byte) :
    be16At (replyHeader frame total ++ rest) (ethHlen + 2) = (total - 14) % 2 ^ 16 ∧
      be16At (replyHeader frame total ++ rest) (ethHlen + sizeofIphdr + 4) = (total - 34) % 2 ^ 16 := by
  rw [← headerFields_swappedHeaders h, swappedHeaders, ← bytes_headerBytes h, HeaderBytes.swapAddresses_bytes,
    HeaderBytes.headerFields_bytes]
  generalize (headerBytes frame h).swapped = hdr
  have htot := be16At_htons (hdr.dst ++ (hdr.src ++ (hdr.ty ++ hdr.ver)))
    (hdr.mid ++ ((hdr.finished total).check ++ (hdr.saddr ++ (hdr.daddr ++ (hdr.sport ++ (hdr.dport ++
      (htons (total - 34) ++ ([0, 0] ++ (hdr.mc ++ rest))))))))) (total - 14)
  have hulen := be16At_htons (hdr.dst ++ (hdr.src ++ (hdr.ty ++ (hdr.ver ++ (htons (total - 14) ++ (hdr.mid ++
    ((hdr.finished total).check ++ (hdr.saddr ++ (hdr.daddr ++ (hdr.sport ++ hdr.dport))))))))))
    ([0, 0] ++ (hdr.mc ++ rest)) (total - 34)
  simp only [List.append_assoc, List.length_append, HeaderBytes.length_dst, HeaderBytes.length_src,
    HeaderBytes.length_ty, HeaderBytes.length_ver, HeaderBytes.length_mid, HeaderBytes.length_check,
    HeaderBytes.length_saddr, HeaderBytes.length_daddr, HeaderBytes.length_sport, HeaderBytes.length_dport,
    length_htons, Nat.reduceAdd] at htot hulen
  simp only [HeaderBytes.bytes, HeaderBytes.finished, List.append_assoc] at htot hulen ⊢
  exact ⟨htot, hulen⟩

/-- The frame sent is determined by the saved keys and the caches their blocks come from. -/
lemma runXdp_sent {env : Interference} {headroom frame : List Byte} {cpu : PerCpu} {c : Cache}
    (h : (runXdp env headroom frame cpu c).1 = .tx) :
    headersLen ≤ frame.length ∧ ∃ i b ks, fromWord i (keyBytes frame) = some b ∧
      ParsedAt (seen env c) 1 [] (keyBytes frame) ks i b ∧
      Saved (runXdp env headroom frame cpu c).2.cpu ks ∧ blocks (seen env c) (i + 3) ks ≠ [] ∧
      (runXdp env headroom frame cpu c).2.ctx.pkt =
        replyHeader frame (headersLen + (blocks (seen env c) (i + 3) ks).length + 5) ++
          (blocks (seen env c) (i + 3) ks ++ replyEnd) := by
  have hrun := runXdp_outcome env headroom frame cpu c
  cases hout : outcome (seen env c) headroom.length frame with
  | handed =>
    rw [hout] at hrun
    simp [HasOutcome, h] at hrun
  | stranded =>
    rw [hout] at hrun
    simp [HasOutcome, h] at hrun
  | discarded =>
    rw [hout] at hrun
    simp [HasOutcome, h] at hrun
  | sent ks out =>
    rw [hout] at hrun
    obtain ⟨-, hpkt, hsaved⟩ := hrun
    obtain ⟨hstart, i, b, hi, hparsed, rfl, hne⟩ := outcome_sent hout
    have hframe : headersLen ≤ frame.length := by
      have := hstart.2.2
      omega
    rw [replyFrame, headerFields_swappedHeaders hframe] at hpkt
    exact ⟨hframe, i, b, ks, hi, hparsed, hsaved, hne, hpkt⟩

/-- A reply fits into one IP packet. -/
lemma length_sent_lt {env : Interference} {headroom frame : List Byte} {cpu : PerCpu} {c : Cache}
    (h : (runXdp env headroom frame cpu c).1 = .tx) :
    (runXdp env headroom frame cpu c).2.ctx.pkt.length < 2 ^ 16 := by
  have hsz := sizes
  obtain ⟨hframe, i, b, ks, -, -, hsaved, -, hpkt⟩ := runXdp_sent h
  have hbound := length_blocks_le (seen env c) (i + 3) ks
  have hcount : bmcMaxCacheDataSize * ks.length ≤ bmcMaxCacheDataSize * bmcMaxKeyInPacket :=
    Nat.mul_le_mul_left _ hsaved.le
  have hmax : bmcMaxCacheDataSize * bmcMaxKeyInPacket = 39090 := by decide
  rw [hpkt, List.length_append, length_replyHeader hframe, List.length_append, length_replyEnd]
  omega

/-- Every reply is the answering headers, the blocks of the saved keys and the end marker, and its length
fields hold the lengths. -/
theorem runXdp_tx_reply (env : Interference) (headroom frame : List Byte) (cpu : PerCpu) (c : Cache)
    (h : (runXdp env headroom frame cpu c).1 = .tx) :
    ∃ i b ks, fromWord i (keyBytes frame) = some b ∧
      ParsedAt (seen env c) 1 [] (keyBytes frame) ks i b ∧
      Saved (runXdp env headroom frame cpu c).2.cpu ks ∧
      (runXdp env headroom frame cpu c).2.ctx.pkt =
        replyHeader frame (runXdp env headroom frame cpu c).2.ctx.pkt.length ++
          (blocks (seen env c) (i + 3) ks ++ replyEnd) ∧
      (runXdp env headroom frame cpu c).2.ctx.pkt.length < 2 ^ 16 ∧
      be16At (runXdp env headroom frame cpu c).2.ctx.pkt 16 =
        (runXdp env headroom frame cpu c).2.ctx.pkt.length - 14 ∧
      be16At (runXdp env headroom frame cpu c).2.ctx.pkt 38 =
        (runXdp env headroom frame cpu c).2.ctx.pkt.length - 34 := by
  obtain ⟨hframe, i, b, ks, hi, hparsed, hsaved, -, hpkt⟩ := runXdp_sent h
  have hshort := length_sent_lt h
  generalize (runXdp env headroom frame cpu c).2.ctx.pkt = pkt at *
  have hlen : pkt.length = headersLen + (blocks (seen env c) (i + 3) ks).length + 5 := by
    rw [hpkt, List.length_append, length_replyHeader hframe, List.length_append, length_replyEnd]
    omega
  rw [← hlen] at hpkt
  obtain ⟨htot, hulen⟩ := lengths_replyHeader hframe pkt.length (blocks (seen env c) (i + 3) ks ++ replyEnd)
  rw [← hpkt, Nat.mod_eq_of_lt (by omega)] at htot hulen
  exact ⟨i, b, ks, hi, hparsed, hsaved, hpkt, hshort, htot, hulen⟩

/-- The cache behind two replies. -/
def twoKeysCache : Cache :=
  (bmcTxFilterMain (sampleReply "VALUE nnnnnnnnnnnn 0 2\r\nde\r\nEND\r\n".toList) PerCpu.zeroed.stats
    (cacheAfterReply "VALUE kkkkkkkkkkkk 0 3\r\nabc\r\nEND\r\n".toList)).kcache

/-- A request for three keys, of which the cache has the first and the last. -/
def sampleRun : XdpAction × XdpState :=
  runXdp Interference.quiet (List.replicate 256 0)
    (sampleRequest "get kkkkkkkkkkkk mmmmmmmmmmmm nnnnnnnnnnnn\r\n".toList) PerCpu.zeroed twoKeysCache

theorem sampleRun_reply : sampleRun.1 = .tx ∧ sampleRun.2.ctx.pkt.drop headersLen =
      ascii "VALUE kkkkkkkkkkkk 0 3\r\nabc\r\nVALUE nnnnnnnnnnnn 0 2\r\nde\r\nEND\r\n".toList ∧
    be16At sampleRun.2.ctx.pkt 16 = sampleRun.2.ctx.pkt.length - 14 ∧ ∃ i ks, Saved sampleRun.2.cpu ks ∧
    sampleRun.2.ctx.pkt =
      replyHeader (sampleRequest "get kkkkkkkkkkkk mmmmmmmmmmmm nnnnnnnnnnnn\r\n".toList)
      sampleRun.2.ctx.pkt.length ++
        (blocks (seen Interference.quiet twoKeysCache) (i + 3) ks ++ replyEnd) := by
  have hrun : sampleRun.1 = .tx ∧ sampleRun.2.ctx.pkt.drop headersLen =
      ascii "VALUE kkkkkkkkkkkk 0 3\r\nabc\r\nVALUE nnnnnnnnnnnn 0 2\r\nde\r\nEND\r\n".toList := by
        decide +kernel
  obtain ⟨htx, htext⟩ := hrun
  refine ⟨htx, htext, ?_⟩
  unfold sampleRun at htx ⊢
  obtain ⟨i, b, ks, -, -, hsaved, hpkt, -, htot, -⟩ :=
    runXdp_tx_reply Interference.quiet (List.replicate 256 0)
    (sampleRequest "get kkkkkkkkkkkk mmmmmmmmmmmm nnnnnnnnnnnn\r\n".toList) PerCpu.zeroed twoKeysCache htx
  exact ⟨htot, i, ks, hsaved, hpkt⟩

end BmcCache.Proofs
