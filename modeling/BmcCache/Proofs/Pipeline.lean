import BmcCache.Proofs.ReplyPhase

/-!
# The outcome of the ingress pipeline

`outcome` computes from the received bytes, the size of the headroom and the caches seen
how the pipeline ends: the frame handed over as received, the packet start stranded, a
reply sent, or the packet discarded. `runXdp_outcome` shows that the chain of programs
ends exactly so.
-/

namespace BmcCache.Proofs

open Buffer

/-- The caches the programs of one packet see, when they do not change it themselves. -/
def seen (env : Interference) (c : Cache) : ℕ → Cache
  | 0 => env 0 c
  | t + 1 => env (t + 1) (seen env c t)

lemma observes_seen (env : Interference) (c : Cache) : Observes env (seen env c) := fun _ => rfl

/-! ### bmc_rx_filter -/

def isGetFrame (frame : List Byte) : Bool :=
  decide (headersLen + 4 ≤ frame.length) && byteAt frame (ethHlen + 9) == ipprotoUdp &&
    be16At frame (ethHlen + sizeofIphdr + 2) == memcachedPort && isGet (frame.drop headersLen)

/-- The offset of the first key in the payload, behind the keyword and the spaces. -/
def keysOffset (frame : List Byte) : ℕ :=
  wsLoop (bmcMaxPacketLength - 4) ((frame.drop headersLen).drop 4) 4

lemma received_pkt (headroom frame : List Byte) : (received headroom frame).pkt = frame := by
  simp [received, XdpMd.pkt]

section Filter

variable {s : XdpState}

lemma rxFilter_get (h : isGetFrame s.ctx.pkt = true) :
    bmcRxFilterMain s = rxGet s (s.ctx.pkt.drop headersLen) := by
  have hsz := sizes
  simp only [isGetFrame, Bool.and_eq_true, decide_eq_true_eq, beq_iff_eq] at h
  obtain ⟨⟨⟨hlen, hproto⟩, hport⟩, hget⟩ := h
  simp only [bmcRxFilterMain]
  rw [if_neg (by omega), if_pos hproto, if_neg (by omega), if_pos ⟨hport, hlen⟩, if_pos hget]

lemma rxFilter_other (h : isGetFrame s.ctx.pkt = false) :
    bmcRxFilterMain s = (.ret .pass, s) ∨ bmcRxFilterMain s = (.tailCall .invalidateCache .pass, s) := by
  simp only [bmcRxFilterMain]
  split_ifs with h1 h2 h3 h4 h5 h6 h7 h8
  · exact Or.inl rfl
  · exact Or.inl rfl
  · simp [isGetFrame, h2, h4.1, h4.2, h5] at h
  · exact Or.inl rfl
  · exact Or.inl rfl
  · exact Or.inl rfl
  · exact Or.inr rfl
  · exact Or.inl rfl
  · exact Or.inl rfl

lemma invalidate_ctx (s : XdpState) :
    ∃ s', bmcInvalidateCacheMain s = (.ret .pass, s') ∧ s'.ctx = s.ctx := by
  simp only [bmcInvalidateCacheMain]
  split_ifs
  · exact ⟨s, rfl, rfl⟩
  · exact ⟨_, rfl, rfl⟩

end Filter

/-! ### The outcome -/

inductive Outcome
  /-- `XDP_PASS` with the frame as received. -/
  | handed
  /-- `XDP_PASS` with the packet start somewhere else. -/
  | stranded
  /-- `XDP_TX` with these saved keys and blocks. -/
  | sent (ks : List (List Byte)) (out : List Byte)
  /-- `XDP_DROP`. -/
  | discarded
  deriving DecidableEq, Repr

/-- The end of the pipeline once the keys `ks` have been saved. -/
def prepareOutcome (obs : ℕ → Cache) (h : ℕ) (frame : List Byte) (ks : List (List Byte)) (left t : ℕ) :
    Outcome :=
  if h < adjustHeadLen then .handed
  else
    match left with
    | 0 => .stranded
    | left + 1 =>
      match reply obs (adjustHeadLen - headersLen + frame.length) left (t + 1) ks [] with
      | .discarded => .discarded
      | .noHit => .handed
      | .sent out => .sent ks out

/-- The filter takes the frame for a GET request and moves the packet start to its first key. -/
def StartsParser (frame : List Byte) : Prop :=
  isGetFrame frame = true ∧ keysOffset frame < bmcMaxPacketLength ∧
    headersLen + keysOffset frame + ethHlen ≤ frame.length

instance (frame : List Byte) : Decidable (StartsParser frame) := inferInstanceAs (Decidable (_ ∧ _ ∧ _))

def keyBytes (frame : List Byte) : List Byte := frame.drop (headersLen + keysOffset frame)

def walk (obs : ℕ → Cache) (frame : List Byte) : WalkEnd :=
  examine obs (maxTailCallCnt - 1) 1 [] (keyBytes frame)

/-- The end of the pipeline for a frame received with `h` bytes of headroom. -/
def outcome (obs : ℕ → Cache) (h : ℕ) (frame : List Byte) : Outcome :=
  if StartsParser frame then
    match walk obs frame with
    | .stranded => .stranded
    | .handedBack => .handed
    | .prepared ks left t => prepareOutcome obs h frame ks left t
  else .handed

/-- What a run does when it has the given outcome. -/
def HasOutcome (h : ℕ) (frame : List Byte) (res : XdpAction × XdpState) : Outcome → Prop
  | .handed => res.1 = .pass ∧ res.2.ctx.data = h ∧ res.2.ctx.pkt = frame
  | .stranded => res.1 = .pass ∧ res.2.ctx.data ≠ h
  | .sent ks out => res.1 = .tx ∧ res.2.ctx.pkt = replyFrame (swappedHeaders frame) out ∧
      Saved res.2.cpu ks
  | .discarded => res.1 = .drop

lemma examine_prepared_ne_nil {obs : ℕ → Cache} {left t : ℕ} {ks : List (List Byte)} {body : List Byte}
    {ks' : List (List Byte)} {left' t' : ℕ} (h : examine obs left t ks body = .prepared ks' left' t') :
    ks' ≠ [] := by
  induction left generalizing t ks body with
  | zero =>
    rw [examine] at h
    cases hw : walkStep (obs t) ks body <;> simp [hw] at h
  | succ left ih =>
    rw [examine] at h
    cases hw : walkStep (obs t) ks body with
    | strand => simp [hw] at h
    | handBack => simp [hw] at h
    | prepare ks₁ =>
      simp only [hw, WalkEnd.prepared.injEq] at h
      obtain ⟨rfl, -, -⟩ := h
      simp only [walkStep] at hw
      split_ifs at hw with h1 h2 h3 h4
      simp only [WalkStep.prepare.injEq] at hw
      exact hw ▸ h4
    | next ks₁ n =>
      simp only [hw] at h
      exact ih h

lemma prepare_outcome {env : Interference} {obs : ℕ → Cache} (hobs : Observes env obs)
    {headroom frame : List Byte} {ks : List (List Byte)} (hks : ks ≠ [])
    (hframe : headersLen + 2 ≤ frame.length) (left t : ℕ) (s : XdpState)
    (hs : Parsed s (headroom ++ frame) headroom.length ks) (hc : env t s.kcache = obs t) :
    HasOutcome headroom.length frame (runChain env left t .preparePacket s)
      (prepareOutcome obs headroom.length frame ks left t) := by
  have hsz := sizes
  have hs' : Parsed { s with kcache := env t s.kcache } (headroom ++ frame) headroom.length ks :=
    ⟨hs.ctx, hs.saved, hs.currentKey, hs.writePktOffset⟩
  unfold prepareOutcome
  split_ifs with hroom
  · have hmain : XdpProg.preparePacket.main { s with kcache := env t s.kcache } = _ :=
      prepare_noHeadroom hs' hroom
    rw [runChain_ret hmain]
    exact ⟨rfl, by rw [hs'.ctx], by rw [hs'.ctx]; exact received_pkt headroom frame⟩
  · obtain ⟨s', hprep, hcache, hwrite⟩ := prepare_spec hs' (by omega) hframe
    have hmain : XdpProg.preparePacket.main { s with kcache := env t s.kcache } = _ := hprep
    have hpre : (headroom.take (headroom.length - adjustHeadLen)).length =
        headroom.length - adjustHeadLen := by
      rw [List.length_take]
      omega
    cases left with
    | zero =>
      -- the new headers are in place, but the reply program cannot be called any more
      rw [runChain_tailCall_zero hmain]
      refine ⟨rfl, ?_⟩
      rw [hwrite.ctx]
      simp only [hpre, List.length_nil]
      omega
    | succ left =>
      rw [runChain_tailCall_succ hmain]
      have hlen : (headroom.drop (headroom.length - adjustHeadLen + headersLen) ++ frame).length =
          adjustHeadLen - headersLen + frame.length := by
        simp only [List.length_append, List.length_drop]
        omega
      have hreply := writeReply_follows_reply hobs left (t + 1) s' [] [] ks hwrite hks
        (by rw [hcache]; simp only [hc]; exact (hobs t).symm)
      rw [hlen] at hreply
      dsimp only
      generalize reply obs (adjustHeadLen - headersLen + frame.length) left (t + 1) ks [] = e at hreply
      cases e with
      | discarded => exact hreply
      | sent out => exact hreply
      | noHit =>
        obtain ⟨hpass, hctx⟩ := hreply
        have hdata : headroom.length - adjustHeadLen + adjustHeadLen = headroom.length := by omega
        refine ⟨hpass, by rw [hctx, hpre]; exact hdata, ?_⟩
        have hsplit : headroom.take (headroom.length - adjustHeadLen) ++ (swappedHeaders frame ++
            (headroom.drop (headroom.length - adjustHeadLen + headersLen) ++ frame)) =
            (headroom.take (headroom.length - adjustHeadLen) ++ (swappedHeaders frame ++
              headroom.drop (headroom.length - adjustHeadLen + headersLen))) ++ frame := by
          simp only [List.append_assoc]
        have hfront : headroom.length - adjustHeadLen + adjustHeadLen =
            (headroom.take (headroom.length - adjustHeadLen) ++ (swappedHeaders frame ++
              headroom.drop (headroom.length - adjustHeadLen + headersLen))).length := by
          simp only [List.length_append, hpre, hwrite.hdrLen, List.length_drop]
          omega
        rw [XdpMd.pkt, hctx, hpre, hsplit, hfront, List.drop_left]

section Start

variable {headroom frame : List Byte} {cpu : PerCpu} {c : Cache}

def startedCpu (cpu : PerCpu) (off : ℕ) : PerCpu :=
  { cpu with
    stats := { cpu.stats with getRecvCount := cpu.stats.getRecvCount + 1 }
    pctx := ⟨0, 0, off % 2 ^ 16, 0⟩ }

lemma rxGet_passed
    (h : bmcMaxPacketLength ≤ keysOffset frame ∨ frame.length < headersLen + keysOffset frame + ethHlen) :
    ∃ s', rxGet ⟨received headroom frame, cpu, c⟩ (frame.drop headersLen) = (.ret .pass, s') ∧
      s'.ctx = received headroom frame := by
  have hkeys : wsLoop (bmcMaxPacketLength - 4) ((frame.drop headersLen).drop 4) 4 = keysOffset frame := rfl
  simp only [rxGet, hkeys]
  split_ifs with hoff
  · have hadj : (received headroom frame).adjustHead ((headersLen + keysOffset frame : ℕ) : ℤ) = none := by
      rw [received, adjustHead_forward, if_neg]
      rw [List.length_append]
      omega
    simp only [hadj]
    exact ⟨_, rfl, rfl⟩
  · exact ⟨_, rfl, rfl⟩

lemma rxGet_started (hoff : keysOffset frame < bmcMaxPacketLength)
    (hlen : headersLen + keysOffset frame + ethHlen ≤ frame.length) :
    rxGet ⟨received headroom frame, cpu, c⟩ (frame.drop headersLen) =
      (.tailCall .hashKeys .pass, ⟨⟨headroom ++ frame, headroom.length + (headersLen + keysOffset frame)⟩,
        startedCpu cpu (keysOffset frame), c⟩) := by
  have hadj : (received headroom frame).adjustHead ((headersLen + keysOffset frame : ℕ) : ℤ) =
      some ⟨headroom ++ frame, headroom.length + (headersLen + keysOffset frame)⟩ := by
    rw [received, adjustHead_forward, if_pos]
    rw [List.length_append]
    omega
  have hkeys : wsLoop (bmcMaxPacketLength - 4) ((frame.drop headersLen).drop 4) 4 = keysOffset frame := rfl
  simp only [rxGet, hkeys, hoff, if_true, hadj]
  rfl

lemma startedCpu_atKey (hoff : keysOffset frame < bmcMaxPacketLength)
    (hlen : headersLen + keysOffset frame + ethHlen ≤ frame.length) :
    AtKey ⟨⟨headroom ++ frame, headroom.length + (headersLen + keysOffset frame)⟩,
      startedCpu cpu (keysOffset frame), c⟩ (headroom ++ frame) headroom.length (keysOffset frame) [] := by
  have hlim := limits
  refine ⟨?_, Nat.mod_eq_of_lt (by omega), ?_, ⟨rfl, by simp, ?_⟩, rfl, rfl⟩
  · simp only [← Nat.add_assoc]
  · rw [List.length_append]
    omega
  · intro i k hi
    simp at hi

end Start

/-- The pipeline ends as computed from the frame, the headroom and the caches seen. -/
theorem runXdp_outcome (env : Interference) (headroom frame : List Byte) (cpu : PerCpu) (c : Cache) :
    HasOutcome headroom.length frame (runXdp env headroom frame cpu c)
      (outcome (seen env c) headroom.length frame) := by
  have hsz := sizes
  have hlim := limits
  have hpkt := received_pkt headroom frame
  unfold runXdp outcome
  by_cases hget : isGetFrame frame = true
  · have hrx : XdpProg.rxFilter.main ⟨received headroom frame, cpu, env 0 c⟩ =
        rxGet ⟨received headroom frame, cpu, env 0 c⟩ (frame.drop headersLen) := by
      have h := @rxFilter_get ⟨received headroom frame, cpu, env 0 c⟩ (by rw [hpkt]; exact hget)
      rwa [hpkt] at h
    by_cases hstart : bmcMaxPacketLength ≤ keysOffset frame ∨
        frame.length < headersLen + keysOffset frame + ethHlen
    · obtain ⟨s', hmain, hctx⟩ := @rxGet_passed headroom frame cpu (env 0 c) hstart
      have hno : ¬StartsParser frame := by
        rintro ⟨-, hoff, hlen⟩
        omega
      rw [if_neg hno, runChain_ret (hrx.trans hmain)]
      exact ⟨rfl, by rw [hctx]; rfl, by rw [hctx]; exact hpkt⟩
    · have hoff : keysOffset frame < bmcMaxPacketLength := by omega
      have hlen : headersLen + keysOffset frame + ethHlen ≤ frame.length := by omega
      have hframe : headersLen + 2 ≤ frame.length := by omega
      have hbody : (headroom ++ frame).drop (headroom.length + headersLen + keysOffset frame) =
          keyBytes frame := by
        rw [Nat.add_assoc, List.drop_length_add_append, keyBytes]
      have hstarted : runChain env maxTailCallCnt 0 .rxFilter ⟨received headroom frame, cpu, c⟩ =
          runChain env (maxTailCallCnt - 1) 1 .hashKeys _ :=
        runChain_tailCall_succ (hrx.trans (rxGet_started hoff hlen))
      rw [if_pos ⟨hget, hoff, hlen⟩, hstarted]
      have hwalk := hashKeys_follows_walk (observes_seen env c) (maxTailCallCnt - 1) 1 (keysOffset frame) _ []
        (@startedCpu_atKey headroom frame cpu (env 0 c) hoff hlen) rfl
        (lt_of_lt_of_le (Nat.add_lt_add_right hoff _) (by decide))
      rw [hbody, ← walk] at hwalk
      cases hw : walk (seen env c) frame with
      | stranded =>
        rw [hw] at hwalk
        exact ⟨hwalk.1, by have := hwalk.2.2; omega⟩
      | handedBack =>
        rw [hw] at hwalk
        exact ⟨hwalk.1, by rw [hwalk.2], by rw [hwalk.2]; exact hpkt⟩
      | prepared ks left t =>
        rw [hw] at hwalk
        obtain ⟨s', hrun, hparsed, hcache⟩ := hwalk
        have hout := prepare_outcome (observes_seen env c) (examine_prepared_ne_nil hw) hframe left t s'
          hparsed hcache
        rw [← hrun] at hout
        exact hout
  · have hother := @rxFilter_other ⟨received headroom frame, cpu, env 0 c⟩
      (by rw [hpkt]; simpa using hget)
    rw [if_neg (fun hstart : StartsParser frame => hget hstart.1)]
    rcases hother with hmain | hmain
    · rw [runChain_ret (show XdpProg.rxFilter.main ⟨received headroom frame, cpu, env 0 c⟩ = _ from hmain)]
      exact ⟨rfl, rfl, hpkt⟩
    · rw [runChain_tailCall_succ
        (show XdpProg.rxFilter.main ⟨received headroom frame, cpu, env 0 c⟩ = _ from hmain)]
      obtain ⟨s', hinv, hctx⟩ := invalidate_ctx ⟨received headroom frame, cpu, env 1 (env 0 c)⟩
      have hmain' : XdpProg.invalidateCache.main ⟨received headroom frame, cpu, env (0 + 1) (env 0 c)⟩ = _ :=
        hinv
      rw [runChain_ret hmain']
      exact ⟨rfl, by rw [hctx]; rfl, by rw [hctx]; exact hpkt⟩

end BmcCache.Proofs
