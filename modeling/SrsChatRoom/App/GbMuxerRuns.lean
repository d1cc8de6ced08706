import SrsChatRoom.App.GbMuxerHeaders

/-!
# Runs of the muxer

A NALU of H.265 is muxed like one of H.264, with three parameter sets. The NALUs behind one that
ends the loop are skipped. A message, its NALUs and the audio keep the invariant, so in every
careful run the video can be decoded.
-/

namespace SrsChatRoom.App.GbMuxer

open Function (update update_of_ne update_self)

/-! ## Muxing a NALU of H.265 -/

variable {m : SrsGbMuxer}

variable {m' : SrsGbMuxer}

/-- What is known of H.264 does not depend on the fields of H.265 and on the queue. -/
theorem AvcInv.hevcFields {last : Option Sets} {L C : Sets}
    (h : AvcInv m last L C) (hfields : m' = { m with
      connected := m'.connected, queue := m'.queue, handed := m'.handed, sent := m'.sent
      past := m'.past
      vpsSpsPpsChange := m'.vpsSpsPpsChange, vpsSpsPpsSent := m'.vpsSpsPpsSent
      h265Vps := m'.h265Vps, h265Sps := m'.h265Sps, h265Pps := m'.h265Pps }) :
    AvcInv m' last L C := by
  rw [hfields]
  exact ⟨h.sps, h.pps, h.spsLatest, h.ppsLatest, h.vpsLatest, h.spsChanged, h.ppsChanged,
    h.notBoth, h.unsent, h.sent, h.spsLength⟩

variable {latest onConn : Codec → Sets}

/-- Changes of the fields of H.265 leave what is known of H.264. -/
theorem Good.hevcFields {L C : Sets}
    (h : Good m latest onConn) (hfields : m' = { m with
      vpsSpsPpsChange := m'.vpsSpsPpsChange, vpsSpsPpsSent := m'.vpsSpsPpsSent
      h265Vps := m'.h265Vps, h265Sps := m'.h265Sps, h265Pps := m'.h265Pps })
    (hhevc : HevcInv m' (lastHeader .h265 (onConnection m)) L C) :
    Good m' (update latest .h265 L) (update onConn .h265 C) := by
  have honConn : onConnection m' = onConnection m := by rw [hfields]; rfl
  have hqueue : m'.queue = m.queue := by rw [hfields]
  have hpast : m'.past = m.past := by rw [hfields]
  have hhanded : m'.handed = m.handed := by rw [hfields]
  refine ⟨hqueue ▸ h.queue, honConn ▸ h.led, hpast ▸ h.past, ?_, ?_, ?_⟩
  · rw [hhanded, honConn, hpast, h.handed]
  · rw [honConn, update_of_ne (by decide), update_of_ne (by decide)]
    apply h.avc.hevcFields
    rw [hfields]
  · rw [honConn, update_self, update_self]
    exact hhevc

/-- The muxer stores what was heard of H.265 on the connection. -/
structure Stored (m : SrsGbMuxer) (L C : Sets) : Prop where
  conn : C = ⟨m.h265Vps, m.h265Sps, m.h265Pps⟩
  vpsLatest : m.h265Vps ≠ [] → L.vps = m.h265Vps
  spsLatest : m.h265Sps ≠ [] → L.sps = m.h265Sps
  ppsLatest : m.h265Pps ≠ [] → L.pps = m.h265Pps

/-- The H.265 parameter sets are there: the sequence header is written. -/
theorem Good.hevcHeader {m₁ : SrsGbMuxer} {L C : Sets}
    (h : Good m latest onConn)
    (hw : Wrote m₁ (.header .h265 ⟨m₁.h265Vps, m₁.h265Sps, m₁.h265Pps⟩) m') (hfields : m₁ = { m with
      vpsSpsPpsChange := m₁.vpsSpsPpsChange
      h265Vps := m₁.h265Vps, h265Sps := m₁.h265Sps, h265Pps := m₁.h265Pps })
    (hstored : Stored m₁ L C) (hvps : m₁.h265Vps ≠ []) (hsps : m₁.h265Sps ≠ [])
    (hpps : m₁.h265Pps ≠ []) :
    Good { m' with vpsSpsPpsChange := false, vpsSpsPpsSent := true }
      (update latest .h265 L) (update onConn .h265 C) := by
  have honConn : onConnection m₁ = onConnection m := by rw [hfields]; rfl
  have hled : Led (onConnection m') := hw.led (honConn ▸ h.led) trivial
  have hall := hw.allHanded (show m₁.handed = onConnection m₁ ++ m₁.past.flatten by
    rw [honConn, hfields]
    exact h.handed)
  refine ⟨hw.queue, hled, ?_, hall, ?_, ?_⟩
  · show ∀ conn ∈ m'.past, Led conn
    rw [hw.past, hfields]
    exact h.past
  · rw [update_of_ne (by decide), update_of_ne (by decide)]
    have hlast : lastHeader .h264 (onConnection m') = lastHeader .h264 (onConnection m) := by
      rw [hw.lastHeader_header, if_neg (by decide), honConn]
    have hold : AvcInv m₁ (lastHeader .h264 (onConnection m)) (latest .h264) (onConn .h264) := by
      apply h.avc.hevcFields
      rw [hfields]
    show AvcInv _ (lastHeader .h264 (onConnection m')) _ _
    rw [hlast]
    exact (hold.frame hw.same).hevcFields rfl
  · rw [update_self, update_self]
    have hlast : lastHeader .h265 (onConnection m') =
        some ⟨m₁.h265Vps, m₁.h265Sps, m₁.h265Pps⟩ :=
      (hw.lastHeader_header .h265).trans (if_pos rfl)
    show HevcInv _ (lastHeader .h265 (onConnection m')) _ _
    rw [hlast, hw.same]
    exact ⟨hstored.conn, hstored.vpsLatest, hstored.spsLatest, hstored.ppsLatest,
      fun _ _ _ => rfl, fun _ => ⟨hvps, hsps, hpps, rfl⟩⟩

variable {r : Run} {parsed : Bool} {fails : Option ℕ} {n : Nalu}

variable {rest : List Nalu}

/-- In a careful run every packet of H.265 is sent. -/
theorem CarefulNalu.hevc_sent (h : CarefulNalu r parsed fails n rest) (hcodec : r.codec = .h265)
    (i : ℕ) : fails ≠ some i := by
  intro hfails
  have hclose := (h.close i hfails).1
  rw [hcodec] at hclose
  cases hclose

/-- A new H.265 parameter set is stored, and the sequence header written when all are there. -/
theorem writeH265VpsSpsPps_muxed
    {m₁ : SrsGbMuxer} {st : Step} (h : Good r.muxer r.latest r.onConn)
    (hconnected : r.muxer.connected = true) (hcodec : r.codec = .h265)
    (hc : CarefulNalu r parsed fails n rest)
    (hheader : m₁.h265Vps ≠ [] → m₁.h265Sps ≠ [] → m₁.h265Pps ≠ [] →
      writesHeader r.muxer .h265 n = true)
    (hfields : m₁ = { r.muxer with
      vpsSpsPpsChange := true
      h265Vps := m₁.h265Vps, h265Sps := m₁.h265Sps, h265Pps := m₁.h265Pps })
    (hmore : r.muxer.h265Vps ≠ [] → r.muxer.h265Sps ≠ [] → r.muxer.h265Pps ≠ [] →
      m₁.h265Vps ≠ [] ∧ m₁.h265Sps ≠ [] ∧ m₁.h265Pps ≠ [])
    (hstored : Stored m₁ ((r.latest .h265).hear .h265 n) ((r.onConn .h265).hear .h265 n))
    (hwrite : writeH265VpsSpsPps m₁ r.dts parsed fails = some st) : Muxed r n st := by
  have hsame : m₁.connected = true ∧ m₁.queue = r.muxer.queue ∧ m₁.vpsSpsPpsChange = true ∧
      m₁.vpsSpsPpsSent = r.muxer.vpsSpsPpsSent := by
    rw [hfields]
    exact ⟨hconnected, rfl, rfl, rfl⟩
  obtain ⟨hconn₁, hqueue₁, hchange₁, hsent₁⟩ := hsame
  unfold writeH265VpsSpsPps at hwrite
  rw [if_neg (not_not.mpr hchange₁)] at hwrite
  split at hwrite
  case isTrue hmissing =>
    rw [unsent_eq hwrite]
    refine .goOn hconn₁ ?_
    rw [hear_latest hcodec, hear_onConn hcodec hconnected]
    have hfields' : m₁ = { r.muxer with
        vpsSpsPpsChange := m₁.vpsSpsPpsChange, vpsSpsPpsSent := m₁.vpsSpsPpsSent
        h265Vps := m₁.h265Vps, h265Sps := m₁.h265Sps, h265Pps := m₁.h265Pps } := by
      rw [hfields]
    refine h.hevcFields hfields' ⟨hstored.conn, hstored.vpsLatest, hstored.spsLatest,
      hstored.ppsLatest, ?_, ?_⟩
    · intro hvps hsps hpps
      exact absurd hmissing (by simp [hvps, hsps, hpps])
    · intro hsent
      obtain ⟨hvps, hsps, hpps, -⟩ := h.hevc.sent (hsent₁ ▸ hsent)
      obtain ⟨hvps₁, hsps₁, hpps₁⟩ := hmore hvps hsps hpps
      exact absurd hmissing (by simp [hvps₁, hsps₁, hpps₁])
  case isFalse hall =>
    have hthere : m₁.h265Vps ≠ [] ∧ m₁.h265Sps ≠ [] ∧ m₁.h265Pps ≠ [] := by simpa using hall
    obtain ⟨hvps, hsps, hpps⟩ := hthere
    have hwrites := hheader hvps hsps hpps
    rw [if_neg (not_not.mpr (hc.parsed hcodec hwrites))] at hwrite
    obtain ⟨w, hw, rfl⟩ := Option.map_eq_some_iff.mp hwrite
    have horder : InOrder m₁.queue r.dts := by
      rw [hqueue₁]
      exact hc.order (.inl (hcodec ▸ hwrites))
    cases write_cases (hqueue₁ ▸ h.queue) horder.1 (fun _ => horder) hw with
    | inl hok =>
      obtain ⟨m', rfl, -, hwrote⟩ := hok
      refine .goOn (hwrote.connected.trans hconn₁) ?_
      rw [hear_latest hcodec, hear_onConn hcodec hconnected]
      apply h.hevcHeader hwrote _ hstored hvps hsps hpps
      rw [hfields]
    | inr hfailed =>
      obtain ⟨m', i, -, hfails, -, -⟩ := hfailed
      exact absurd hfails (hc.hevc_sent hcodec i)

section Kind

variable {n : Nalu}

theorem kind_hevc_vps (h : n.hevcType = 32) : n.kind .h265 = .vps := by
  unfold Nalu.kind
  rw [h]
  rfl

theorem kind_hevc_sps (h : n.hevcType = 33) : n.kind .h265 = .sps := by
  unfold Nalu.kind
  rw [h]
  rfl

theorem kind_hevc_pps (h : n.hevcType = 34) : n.kind .h265 = .pps := by
  unfold Nalu.kind
  rw [h]
  rfl

/-- Every other type is that of a slice or of nothing that is needed. -/
theorem kind_hevc_rest (hvps : n.hevcType ≠ 32) (hsps : n.hevcType ≠ 33) (hpps : n.hevcType ≠ 34) :
    n.kind .h265 = .slice ∨ n.kind .h265 = .other := by
  unfold Nalu.kind
  dsimp only
  rw [if_neg hvps, if_neg hsps, if_neg hpps]
  split
  · exact .inl rfl
  · exact .inr rfl

end Kind

theorem muxH265_muxed
    {st : Step} (h : Good r.muxer r.latest r.onConn) (hconnected : r.muxer.connected = true)
    (hcodec : r.codec = .h265) (hc : CarefulNalu r parsed fails n rest)
    (hmux : muxH265 r.muxer r.dts n ((r.hear n).latest .h265) parsed fails = some st) :
    Muxed r n st := by
  unfold muxH265 at hmux
  dsimp only at hmux
  split at hmux
  case isTrue hother =>
    -- SEI and access unit delimiters
    rw [unsent_eq hmux]
    have hkind : n.kind .h265 = .slice ∨ n.kind .h265 = .other := by
      apply kind_hevc_rest <;> omega
    refine .goOn hconnected ?_
    rw [run_hear_other (hcodec ▸ hkind)]
    exact h
  case isFalse hnotOther =>
  split at hmux
  case isTrue hnt =>
    have hkind := kind_hevc_vps hnt
    have hhear : ∀ s : Sets, s.hear .h265 n = { s with vps := n.bytes } := by
      intro s
      rw [Sets.hear, hkind]
    split at hmux
    case isTrue hold =>
      rw [unsent_eq hmux]
      refine .goOn hconnected ?_
      rw [hear_latest hcodec, hear_onConn hcodec hconnected, hhear, hhear]
      refine h.hevcFields rfl ⟨?_, fun _ => hold.symm, h.hevc.spsLatest, h.hevc.ppsLatest,
        h.hevc.done, h.hevc.sent⟩
      rw [h.hevc.conn, hold]
    case isFalse hnew =>
      refine writeH265VpsSpsPps_muxed h hconnected hcodec hc ?_ rfl ?_ ?_ hmux
      · intro _ hsps hpps
        unfold writesHeader
        rw [hkind]
        exact decide_eq_true ⟨hnew, hsps, hpps⟩
      · intro _ hsps hpps
        exact ⟨nalu_bytes_ne n, hsps, hpps⟩
      · rw [hhear, hhear, h.hevc.conn]
        exact ⟨rfl, fun _ => rfl, h.hevc.spsLatest, h.hevc.ppsLatest⟩
  case isFalse hnotVps =>
  split at hmux
  case isTrue hnt =>
    have hkind := kind_hevc_sps hnt
    have hhear : ∀ s : Sets, s.hear .h265 n = { s with sps := n.bytes } := by
      intro s
      rw [Sets.hear, hkind]
    have hdemux := spsDemux_of_le (hc.sps (hcodec ▸ hkind))
    rw [hdemux] at hmux
    split at hmux
    case isTrue hold =>
      rw [unsent_eq hmux]
      refine .goOn hconnected ?_
      rw [hear_latest hcodec, hear_onConn hcodec hconnected, hhear, hhear]
      refine h.hevcFields rfl ⟨?_, h.hevc.vpsLatest, fun _ => hold.symm, h.hevc.ppsLatest,
        h.hevc.done, h.hevc.sent⟩
      rw [h.hevc.conn, hold]
    case isFalse hnew =>
      refine writeH265VpsSpsPps_muxed h hconnected hcodec hc ?_ rfl ?_ ?_ hmux
      · intro hvps _ hpps
        unfold writesHeader
        rw [hkind]
        rw [← hdemux] at hnew
        exact decide_eq_true ⟨hnew, hvps, hpps⟩
      · intro hvps _ hpps
        exact ⟨hvps, nalu_bytes_ne n, hpps⟩
      · rw [hhear, hhear, h.hevc.conn]
        exact ⟨rfl, h.hevc.vpsLatest, fun _ => rfl, h.hevc.ppsLatest⟩
  case isFalse hnotSps =>
  split at hmux
  case isTrue hnt =>
    have hkind := kind_hevc_pps hnt
    have hhear : ∀ s : Sets, s.hear .h265 n = { s with pps := n.bytes } := by
      intro s
      rw [Sets.hear, hkind]
    split at hmux
    case isTrue hold =>
      rw [unsent_eq hmux]
      refine .goOn hconnected ?_
      rw [hear_latest hcodec, hear_onConn hcodec hconnected, hhear, hhear]
      refine h.hevcFields rfl ⟨?_, h.hevc.vpsLatest, h.hevc.spsLatest, fun _ => hold.symm,
        h.hevc.done, h.hevc.sent⟩
      rw [h.hevc.conn, hold]
    case isFalse hnew =>
      refine writeH265VpsSpsPps_muxed h hconnected hcodec hc ?_ rfl ?_ ?_ hmux
      · intro hvps hsps _
        unfold writesHeader
        rw [hkind]
        exact decide_eq_true ⟨hnew, hvps, hsps⟩
      · intro hvps hsps _
        exact ⟨hvps, hsps, nalu_bytes_ne n⟩
      · rw [hhear, hhear, h.hevc.conn]
        exact ⟨rfl, h.hevc.vpsLatest, h.hevc.spsLatest, fun _ => rfl⟩
  case isFalse hnotPps =>
    have hkind := kind_hevc_rest hnotVps hnotSps hnotPps
    have hframeKind : n.kind .h265 = .slice ∨ n.kind .h265 = .other ∧
        ¬ (n.hevcType = 39 ∨ n.hevcType = 40 ∨ n.hevcType = 35) :=
      hkind.imp id fun hk => ⟨hk, hnotOther⟩
    have hsame : r.hear n = r := run_hear_other (hcodec ▸ hkind)
    unfold writeH265IpbFrame at hmux
    split at hmux
    case isTrue hunsent =>
      rw [unsent_eq hmux]
      refine .refused ?_
      unfold refuses
      rw [hcodec]
      exact decide_eq_true ⟨hframeKind, hunsent⟩
    case isFalse hsent =>
      have hsent' : r.muxer.vpsSpsPpsSent = true := not_not.mp hsent
      have hframe : writesFrame r.muxer .h265 n = true := decide_eq_true ⟨hframeKind, hsent'⟩
      obtain ⟨hvps, hsps, hpps, hlast⟩ := h.hevc.sent hsent'
      have hlatest :
          r.latest .h265 = ⟨r.muxer.h265Vps, r.muxer.h265Sps, r.muxer.h265Pps⟩ := by
        rw [← h.hevc.vpsLatest hvps, ← h.hevc.spsLatest hsps, ← h.hevc.ppsLatest hpps]
      have hfollows : Follows r.muxer (.frame .h265 n (r.latest .h265)) := by
        rw [hlatest]
        exact hlast
      have horder : InOrder r.muxer.queue r.dts := hc.order (.inr (hcodec ▸ hframe))
      rw [hsame] at hmux
      obtain ⟨w, hw, rfl⟩ := Option.map_eq_some_iff.mp hmux
      cases write_cases h.queue horder.1 (fun _ => horder) hw with
      | inl hok =>
        obtain ⟨m', rfl, -, hwrote⟩ := hok
        refine .goOn (hwrote.connected.trans hconnected) ?_
        rw [hsame]
        exact h.wrote hwrote hfollows hwrote.lastHeader_frame
      | inr hfailed =>
        obtain ⟨m', i, -, hfails, -, -⟩ := hfailed
        exact absurd hfails (hc.hevc_sent hcodec i)

/-! ## NALUs that are skipped -/

/-- Of H.264 no VPS is received. -/
theorem hear_avc_vps (s : Sets) (n : Nalu) : (s.hear .h264 n).vps = s.vps := by
  unfold Sets.hear
  cases hkind : n.kind .h264 with
  | vps =>
    unfold Nalu.kind at hkind
    dsimp only at hkind
    split_ifs at hkind
  | sps => rfl
  | pps => rfl
  | slice => rfl
  | other => rfl

/-- While nothing is received on a connection, the parameter sets that were received before do not
matter. -/
theorem Good.hear_closed (h : Good m latest fun _ => {}) (codec : Codec) (n : Nalu) :
    Good m (update latest codec ((latest codec).hear codec n)) fun _ => {} := by
  have hsps : m.h264Sps = [] := h.avc.sps.symm
  have hpps : m.h264Pps = [] := h.avc.pps.symm
  have hstored : (⟨[], [], []⟩ : Sets) = ⟨m.h265Vps, m.h265Sps, m.h265Pps⟩ := h.hevc.conn
  have hstored' : [] = m.h265Vps ∧ [] = m.h265Sps ∧ [] = m.h265Pps := by
    simpa only [Sets.mk.injEq] using hstored
  obtain ⟨hvps5, hsps5, hpps5⟩ := hstored'
  refine ⟨h.queue, h.led, h.past, h.handed, ?_, ?_⟩
  · refine ⟨h.avc.sps, h.avc.pps, fun hne => absurd hsps hne, fun hne => absurd hpps hne, ?_,
      h.avc.spsChanged, h.avc.ppsChanged, h.avc.notBoth, h.avc.unsent, h.avc.sent,
      h.avc.spsLength⟩
    cases codec with
    | h264 =>
      rw [update_self, hear_avc_vps]
      exact h.avc.vpsLatest
    | h265 =>
      rw [update_of_ne (by decide)]
      exact h.avc.vpsLatest
  · exact ⟨h.hevc.conn, fun hne => absurd hvps5.symm hne, fun hne => absurd hsps5.symm hne,
      fun hne => absurd hpps5.symm hne, h.hevc.done, h.hevc.sent⟩

/-- The connection is closed. -/
structure Closed (r : Run) : Prop where
  good : Good r.muxer r.latest fun _ => {}
  kept : r.lost = []
  alive : r.aborted = false
  closed : r.muxer.connected = false
  nothing : r.muxer.sent = []
  idle : r.pending = []
  onConn : r.onConn = fun _ => {}

theorem Closed.inv (h : Closed r) : Inv r := by
  refine ⟨?_, h.kept, h.alive, fun _ => ⟨h.nothing, h.idle, h.onConn⟩⟩
  rw [h.onConn]
  exact h.good

theorem Inv.closed (h : Inv r) (hclosed : r.muxer.connected = false) : Closed r := by
  obtain ⟨hnothing, hidle, honConn⟩ := h.idle hclosed
  exact ⟨honConn ▸ h.good, h.kept, h.alive, hclosed, hnothing, hidle, honConn⟩

theorem Closed.hear (h : Closed r) (n : Nalu) : Closed (r.hear n) := by
  refine ⟨h.good.hear_closed r.codec n, h.kept, h.alive, h.closed, h.nothing, h.idle, ?_⟩
  unfold Run.hear
  rw [h.closed]
  exact h.onConn

/-- A closed connection loses nothing. -/
theorem Closed.skip (h : Closed r) (nalus : List Nalu) : Closed (r.skip nalus) := by
  induction nalus generalizing r with
  | nil => exact h
  | cons n rest ih =>
    have hheard := h.hear n
    have hdue : ¬ (n.kind (r.hear n).codec = .slice ∧ (r.hear n).muxer.connected = true ∧
        ((r.hear n).onConn (r.hear n).codec).complete (r.hear n).codec = true) := by
      rw [hheard.closed]
      intro hdue
      cases hdue.2.1
    unfold Run.skip
    dsimp only
    rw [if_neg hdue]
    exact ih hheard

variable {codec : Codec}

/-- Without a sequence header the parameter sets are not complete. -/
theorem Good.incomplete (h : Good m latest onConn) (hsent : headerSent m codec = false) :
    (onConn codec).complete codec = false := by
  apply Bool.eq_false_iff.mpr
  intro hcomplete
  have hall := of_decide_eq_true hcomplete
  cases codec with
  | h264 =>
    obtain ⟨-, hsps, hpps⟩ := hall
    rw [h.avc.sps] at hsps
    rw [h.avc.pps] at hpps
    obtain ⟨hspsFlag, hppsFlag⟩ := h.avc.unsent hsent
    cases h.avc.notBoth with
    | inl hnot => exact absurd ((hspsFlag hsps).symm.trans hnot) Bool.noConfusion
    | inr hnot => exact absurd ((hppsFlag hpps).symm.trans hnot) Bool.noConfusion
  | h265 =>
    rw [h.hevc.conn] at hall
    obtain ⟨hvps, hsps, hpps⟩ := hall
    have hvps' := hvps.resolve_left (by decide)
    exact absurd ((h.hevc.done hvps' hsps hpps).symm.trans hsent) Bool.noConfusion

/-- A NALU that may be skipped: no parameter set, and a slice only without a sequence header. -/
def Idle (m : SrsGbMuxer) (codec : Codec) (n : Nalu) : Prop :=
  n.kind codec = .other ∨ n.kind codec = .slice ∧ headerSent m codec = false

theorem Good.skip (h : Good r.muxer r.latest r.onConn) {nalus : List Nalu}
    (hidle : ∀ n ∈ nalus, Idle r.muxer r.codec n) : r.skip nalus = r := by
  induction nalus with
  | nil => rfl
  | cons n rest ih =>
    have hn := hidle n List.mem_cons_self
    have hsame : r.hear n = r := run_hear_other (hn.symm.imp And.left id)
    have hdue : ¬ (n.kind r.codec = .slice ∧ r.muxer.connected = true ∧
        (r.onConn r.codec).complete r.codec = true) := by
      intro hdue
      cases hn with
      | inl hother => exact absurd (hother.symm.trans hdue.1) (by decide)
      | inr hslice =>
        exact absurd (hdue.2.2.symm.trans (h.incomplete hslice.2)) Bool.noConfusion
    unfold Run.skip
    dsimp only
    rw [hsame, if_neg hdue]
    exact ih fun n' hn' => hidle n' (List.mem_cons_of_mem n hn')

/-- The NALU that ends the loop may be skipped itself. -/
theorem idle_of_refuses (h : refuses m codec n = true) : Idle m codec n := by
  cases codec with
  | h264 =>
    cases of_decide_eq_true h with
    | inl hunknown =>
      left
      unfold avcKnown at hunknown
      simp only [decide_eq_true_eq, not_or] at hunknown
      unfold Nalu.kind
      dsimp only
      rw [if_neg hunknown.1, if_neg hunknown.2.1, if_neg (by omega)]
    | inr hslice => exact .inr ⟨hslice.1, Bool.eq_false_iff.mpr hslice.2⟩
  | h265 =>
    obtain ⟨hkind, hunsent⟩ := of_decide_eq_true h
    cases hkind with
    | inl hslice => exact .inr ⟨hslice, Bool.eq_false_iff.mpr hunsent⟩
    | inr hother => exact .inl hother.1

/-! ## Steps -/

/-- A new connection in place of one that is closed. -/
theorem Closed.reopen (h : Closed r) (connected : Bool) :
    Good { r.muxer.close with connected := connected } r.latest fun _ => {} := by
  have hsame : onConnection { r.muxer.close with connected := connected } =
      onConnection r.muxer := by
    unfold onConnection
    rw [h.nothing]
    rfl
  have hsps : r.muxer.h264Sps = [] := h.good.avc.sps.symm
  have hpps : r.muxer.h264Pps = [] := h.good.avc.pps.symm
  refine ⟨h.good.queue, hsame ▸ h.good.led, ?_, ?_, ?_, ?_⟩
  · intro conn hconn
    cases List.mem_cons.mp hconn with
    | inl hsent =>
      rw [hsent, h.nothing]
      exact led_nil
    | inr hpast => exact h.good.past conn hpast
  · rw [hsame]
    show r.muxer.handed = onConnection r.muxer ++ (r.muxer.sent :: r.muxer.past).flatten
    rw [h.nothing, h.good.handed]
    rfl
  · rw [hsame]
    have havc := h.good.avc
    refine ⟨rfl, rfl, fun hne => absurd rfl hne, fun hne => absurd rfl hne, havc.vpsLatest,
      fun hchanged => absurd hsps (havc.spsChanged hchanged),
      fun hchanged => absurd hpps (havc.ppsChanged hchanged), havc.notBoth,
      fun _ => ⟨fun hne => absurd rfl hne, fun hne => absurd rfl hne⟩, fun hsent => ?_,
      fun hne => absurd rfl hne⟩
    cases hsent
  · rw [hsame]
    have hhevc := h.good.hevc
    exact ⟨hhevc.conn, hhevc.vpsLatest, hhevc.spsLatest, hhevc.ppsLatest, hhevc.done, hhevc.sent⟩

/-- The muxer is connected, with the connection it had or with a new one. -/
theorem Inv.connect (h : Inv r) : Inv r.connect ∧ r.connect.muxer.connected = true := by
  unfold Run.connect
  split
  case isTrue hconnected => exact ⟨h, hconnected⟩
  case isFalse hclosed =>
    have hold := h.closed (Bool.eq_false_iff.mpr hclosed)
    refine ⟨⟨hold.reopen true, h.kept, h.alive, fun hnot => ?_⟩, rfl⟩
    cases hnot

/-- A message for which no connection opens. -/
theorem Closed.refused (h : Closed r) : Closed { r with muxer := r.muxer.close } :=
  ⟨h.reopen false, h.kept, h.alive, rfl, rfl, h.idle, h.onConn⟩

variable {r' : Run}

theorem Inv.video (h : Inv r) {dts : ℕ} {nalus : List Nalu}
    {connects : Bool} (hstep : step r (.video codec dts nalus connects) = some r') : Inv r' := by
  unfold step at hstep
  dsimp only at hstep
  split at hstep
  case isFalse => cases hstep
  case isTrue hready =>
    have hset : Inv { r with codec := codec, dts := dts } := ⟨h.good, h.kept, h.alive, h.idle⟩
    split at hstep
    case isTrue hopen =>
      cases hstep
      obtain ⟨hinv, hconnected⟩ := hset.connect
      refine ⟨hinv.good, hinv.kept, hinv.alive, fun hnot => ?_⟩
      exact absurd (hconnected.symm.trans hnot) Bool.noConfusion
    case isFalse hnot =>
      cases hstep
      have hclosed : r.muxer.connected = false := by
        apply Bool.eq_false_iff.mpr
        intro hconnected
        exact hnot (.inl hconnected)
      exact ((hset.closed hclosed).refused.skip nalus).inv

theorem Inv.nalu (h : Inv r)
    (hc : Careful r (.nalu parsed fails)) (hstep : step r (.nalu parsed fails) = some r') :
    Inv r' := by
  unfold step at hstep
  unfold Careful at hc
  dsimp only at hstep hc
  cases hpending : r.pending with
  | nil =>
    rw [hpending] at hstep
    cases hstep
  | cons n rest =>
    rw [hpending] at hstep hc
    dsimp only at hstep hc
    have hconnected : r.muxer.connected = true := by
      apply Bool.eq_true_of_not_eq_false
      intro hclosed
      have hidle := (h.idle hclosed).2.1
      rw [hpending] at hidle
      cases hidle
    obtain ⟨st, hst, rfl⟩ := Option.map_eq_some_iff.mp hstep
    have hmuxed : Muxed r n st := by
      unfold muxNalu at hst
      cases hcodec : r.codec with
      | h264 =>
        rw [hcodec] at hst
        exact muxH264_muxed h.good hconnected hcodec hc hst
      | h265 =>
        rw [hcodec] at hst
        exact muxH265_muxed h.good hconnected hcodec hc hst
    cases hmuxed with
    | goOn connected good =>
      refine ⟨good, h.kept, h.alive, fun hnot => ?_⟩
      exact absurd (connected.symm.trans hnot) Bool.noConfusion
    | refused hrefuses =>
      have hidle : ∀ n' ∈ n :: rest, Idle r.muxer r.codec n' := by
        intro n' hn'
        cases List.mem_cons.mp hn' with
        | inl hself => exact hself ▸ idle_of_refuses hrefuses
        | inr hrest => exact hc.refused hrefuses n' hrest
      have hsame : ({ r with pending := [] } : Run).skip (n :: rest) = { r with pending := [] } :=
        @Good.skip { r with pending := [] } h.good _ hidle
      show Inv (({ r with pending := [] } : Run).skip (n :: rest))
      rw [hsame]
      refine ⟨h.good, h.kept, h.alive, fun hnot => ?_⟩
      exact absurd (hconnected.symm.trans hnot) Bool.noConfusion
    | @broken m closed nothing good =>
      have hclosed : Closed
          { r.hear n with muxer := m, pending := [], onConn := fun _ => {} } :=
        ⟨good, h.kept, h.alive, closed, nothing, rfl, rfl⟩
      exact (hclosed.skip rest).inv

theorem Inv.audio (h : Inv r) {dts : ℕ} {connects : Bool}
    (hc : Careful r (.audio dts connects fails))
    (hstep : step r (.audio dts connects fails) = some r') : Inv r' := by
  unfold step at hstep
  dsimp only at hstep
  split at hstep
  case isFalse => cases hstep
  case isTrue hready =>
  split at hstep
  case isFalse hnot =>
    cases hstep
    have hclosed : r.muxer.connected = false := by
      apply Bool.eq_false_iff.mpr
      intro hconnected
      exact hnot (.inl hconnected)
    exact (h.closed hclosed).refused.inv
  case isTrue hopen =>
    obtain ⟨hfree, hclose⟩ := hc hopen
    obtain ⟨hinv, hconnected⟩ := h.connect
    -- connecting leaves the queue, the change flags and what is stored of H.265
    have hsame : r.connect.muxer.queue = r.muxer.queue ∧ r.connect.pending = [] ∧
        ∀ i, MayClose r.muxer dts .audio i → MayClose r.connect.muxer dts .audio i := by
      unfold Run.connect
      split
      · exact ⟨rfl, hready.2, fun _ hi => hi⟩
      · exact ⟨rfl, hready.2, fun _ hi => hi⟩
    obtain ⟨hqueue, hpending, hmay⟩ := hsame
    obtain ⟨w, hw, rfl⟩ := Option.map_eq_some_iff.mp hstep
    have hfree' : Free r.connect.muxer.queue dts := hqueue ▸ hfree
    cases write_cases hinv.good.queue hfree' (fun hvideo => by cases hvideo) hw with
    | inl hok =>
      obtain ⟨m', rfl, -, hwrote⟩ := hok
      refine ⟨hinv.good.wrote hwrote trivial hwrote.lastHeader_audio, hinv.kept, hinv.alive,
        fun hnot => ?_⟩
      exact absurd ((hwrote.connected.trans hconnected).symm.trans hnot) Bool.noConfusion
    | inr hfailed =>
      obtain ⟨m', i, rfl, hfails, hwrote, hbehind⟩ := hfailed
      refine ⟨?_, hinv.kept, hinv.alive, fun _ => ⟨rfl, hpending, rfl⟩⟩
      exact hinv.good.broken hwrote trivial (hmay i (hclose i hfails)) hbehind

theorem Inv.step {a : Action} (h : Inv r) (hc : Careful r a)
    (hstep : step r a = some r') : Inv r' := by
  cases a with
  | video codec dts nalus connects => exact h.video hstep
  | nalu parsed fails => exact h.nalu hc hstep
  | audio dts connects fails => exact h.audio hc hstep

/-- In every careful run the video can be decoded. -/
theorem decodable_of_run {r : Run} (hrun : System.Reaches step Careful .init r) : Decodable r := by
  have hinv : Inv r := hrun.invariant (fun _ _ _ h hc hstep => h.step hc hstep) inv_init
  exact hinv.decodable

/-! ## Runs of a device -/

def spsNalu : Nalu := ⟨0x67, [0x64, 0, 0x1f]⟩
def spsNalu' : Nalu := ⟨0x67, [0x64, 0, 0x20]⟩
def ppsNalu : Nalu := ⟨0x68, [0xee]⟩
def idrNalu : Nalu := ⟨0x65, [0x88]⟩
def sliceNalu : Nalu := ⟨0x41, [0x9a]⟩

def hevcVps : Nalu := ⟨0x40, [1, 0x0c]⟩
def hevcSps : Nalu := ⟨0x42, [1, 1, 1]⟩
def hevcPps : Nalu := ⟨0x44, [1, 0xc1]⟩
def hevcIdr : Nalu := ⟨0x26, [1]⟩
def hevcSlice : Nalu := ⟨0x02, [1]⟩

/-- The NALUs of a message are muxed, and all packets are sent. -/
def muxAll (n : ℕ) : List Action := List.replicate n (.nalu true none)

/-- The connection is closed on the first frame, and the parameter sets come again. -/
def reopenedRun : List Action :=
  [.audio 0 true none, .audio 0 true none,
    .video .h264 5 [spsNalu, ppsNalu, idrNalu] true] ++ muxAll 2 ++ [.nalu true (some 0),
    .video .h264 10 [spsNalu, ppsNalu, idrNalu] true] ++ muxAll 3 ++
    [.audio 20 true none, .audio 21 true none]

theorem reopenedRun_decodable : ∃ r : Run, Decodable r ∧ r.muxer.sent.length = 3 ∧
    r.muxer.past.length = 3 := by
  obtain ⟨r, hrun, -, hobs⟩ := System.reaches_of_observe step Careful .init reopenedRun
    (fun r => (r.muxer.sent.length, r.muxer.past.length)) (b := (3, 3)) rfl
  have hlengths : r.muxer.sent.length = 3 ∧ r.muxer.past.length = 3 := by simpa using hobs
  exact ⟨r, decodable_of_run hrun, hlengths⟩

/-- A new SPS comes, with the PPS as it was. -/
def newSpsRun : List Action :=
  [.video .h264 0 [spsNalu, ppsNalu, idrNalu] true] ++ muxAll 3 ++
    [.video .h264 10 [spsNalu', sliceNalu, sliceNalu] true] ++ muxAll 3 ++
    [.audio 20 true none, .audio 30 true none]

/-- The connection is closed after the H.265 sequence header, and the same parameter sets come
again. -/
def hevcReopenedRun : List Action :=
  [.video .h265 0 [hevcVps, hevcSps, hevcPps, hevcIdr] true] ++ muxAll 4 ++
    [.audio 10 true none, .audio 20 true none, .video .h265 30 [hevcSlice] true,
      .nalu true (some 0), .video .h265 40 [hevcVps, hevcSps, hevcPps, hevcIdr] true] ++
    muxAll 4 ++ [.audio 50 true none, .audio 60 true none]

/-- A frame with a header in front of it that is not the latest one, or with none. -/
theorem not_decodable_of_sent {latest : Sets}
    {older : List Packet} (hsent : r.muxer.sent = .frame codec n latest :: older)
    (hlast : lastHeader codec older ≠ some latest) : ¬ Decodable r := by
  intro h
  have hled : Led (.frame codec n latest :: older) := hsent ▸ h.led _ List.mem_cons_self
  exact hlast (hled [] codec n latest older rfl)

/-- The frames after a new SPS follow the old sequence header, and on a second connection frames of
H.265 follow none. -/
theorem newSpsRun_not_decodable :
    (∃ r, System.Reaches step System.anyStep .init r ∧ ¬ Decodable r ∧
      System.exec step System.anyStep .init newSpsRun = some r) ∧
    ∃ r, System.Reaches step System.anyStep .init r ∧ ¬ Decodable r ∧
      System.exec step System.anyStep .init hevcReopenedRun = some r := by
  constructor
  · obtain ⟨r, hrun, hexec, hobs⟩ := System.reaches_of_observe step System.anyStep .init newSpsRun
      (fun r => r.muxer.sent) (b := [.frame .h264 sliceNalu ⟨[], spsNalu'.bytes, ppsNalu.bytes⟩,
        .frame .h264 idrNalu ⟨[], spsNalu.bytes, ppsNalu.bytes⟩,
        .header .h264 ⟨[], spsNalu.bytes, ppsNalu.bytes⟩]) rfl
    exact ⟨r, hrun, not_decodable_of_sent hobs (by decide), hexec⟩
  · obtain ⟨r, hrun, hexec, hobs⟩ := System.reaches_of_observe step System.anyStep .init
      hevcReopenedRun (fun r => r.muxer.sent)
      (b := [.frame .h265 hevcSlice ⟨hevcVps.bytes, hevcSps.bytes, hevcPps.bytes⟩]) rfl
    exact ⟨r, hrun, not_decodable_of_sent hobs (by decide), hexec⟩

end SrsChatRoom.App.GbMuxer
