import SrsChatRoom.App.SdpMedia

/-!
# Descriptions that are read as they were written

A well-formed description is parsed from what was encoded, up to what `parse` does not take
(`kept`), exactly if it is `Lossless`: of the parameters of a format only the first word is read, a
fingerprint is not written without both of its parts, and the first of the stream ids is taken for
the semantic if there is none. `lossless_parse` is the one direction: nothing else is ever parsed.
-/

namespace SrsChatRoom.App.Sdp

open TextStream

/-! ## The whole description -/

theorem SrsMediaDesc.reads_encodes {l : List SrsMediaDesc}
    (h : ∀ m ∈ l, m.WellFormed ∧ m.Lossless) :
    ∃ lss, l.mapM SrsMediaDesc.encode = .ok lss ∧ ∀ s : SrsSdp, s.Reads lss.flatten
      { s with mediaDescs := s.mediaDescs ++ l.map SrsMediaDesc.written
               inMediaSession := s.inMediaSession || !l.isEmpty } := by
  induction l with
  | nil =>
    refine ⟨[], rfl, fun s => ?_⟩
    simp only [List.map_nil, List.append_nil, List.isEmpty_nil, Bool.not_true, Bool.or_false]
    exact .nil s
  | cons m l ih =>
    obtain ⟨ls, hls, hread⟩ := reads_encode (h m List.mem_cons_self).1 (h m List.mem_cons_self).2
    obtain ⟨lss, hlss, hreads⟩ := ih fun m' hm' => h m' (List.mem_cons_of_mem _ hm')
    refine ⟨ls :: lss, ?_, fun s => ?_⟩
    · rw [List.mapM_cons]
      simp [hls, hlss]
    · have hall := (hread s).append (hreads _)
      simpa using hall

namespace SrsSdp

variable {s : SrsSdp}

theorem Reads.attribute {s' : SrsSdp} (content : Text) (hsection : s.inMediaSession = false)
    (htidy : Tidy content) (h : s.parseAttribute content = .ok s') :
    s.Reads ['a' :: '=' :: content] s' := by
  apply Reads.line (by decide) htidy
  show (if s.inMediaSession then _ else s.parseAttribute content) = _
  rw [if_neg (by simp [hsection]), h]

theorem readAll_words {l : List Text} (hl : ∀ w ∈ l, IsWord w) :
    readAll word (l.flatMap spaced) = l := by
  apply @readAll_flatMap _ _ (fun w => w) (fun s v rest => length_word) rfl
  intro w hw s hs
  rw [List.cons_append, word_space, word_append (hl w hw) hs]

/-- The group policy and its groups. -/
theorem reads_group {policy : Text} {groups : List Text} (hpolicy : Solid policy)
    (hLS : "LS".toList.isPrefixOf policy = false) (hgroups : ∀ g ∈ groups, IsWord g)
    (htogether : groups = [] ↔ policy = []) (hsection : s.inMediaSession = false)
    (hs : s.groups = []) (hs' : s.groupPolicy = []) :
    s.Reads (if groups = [] then [] else ["a=group:".toList ++ policy ++ groups.flatMap spaced])
      { s with groups := groups, groupPolicy := policy } := by
  split
  · next hnil =>
    rw [htogether.1 hnil, hnil]
    cases s
    dsimp only at hs hs'
    rw [hs, hs']
    exact .nil _
  · next hne =>
    have hword : IsWord policy := ⟨fun hnil => hne (htogether.2 hnil), hpolicy⟩
    have hprefixed : "LS".toList.isPrefixOf (policy ++ groups.flatMap spaced) = false := by
      cases policy with
      | nil => exact absurd rfl hword.1
      | cons c rest =>
        cases rest with
        | nil =>
          cases groups with
          | nil => exact absurd rfl hne
          | cons g groups => simp [List.isPrefixOf, spaced]
        | cons d rest => simpa [List.isPrefixOf] using hLS
    rw [List.append_assoc]
    apply Reads.attribute ("group".toList ++ ':' :: (policy ++ groups.flatMap spaced)) hsection
    · apply Tidy.append (a := "group:".toList) (by decide)
      exact tidy_flatMap (fun w => w) (tidy_of_isWord hword) hgroups
    · unfold SrsSdp.parseAttribute
      rw [upTo_append (by decide)]
      show s.parseAttrGroup _ = _
      unfold parseAttrGroup
      rw [hprefixed, if_neg (by decide), bind_eq_ok]
      refine ⟨_, fetch_word hword (apart_flatMap (fun w => w) groups), ?_⟩
      dsimp only
      rw [readAll_words hgroups, hs, List.nil_append]

/-- The semantic and the stream ids. -/
theorem reads_msidSemantic {semantic : Text} {msids : List Text}
    (hsemantic : Solid semantic) (hmsids : ∀ id ∈ msids, IsWord id)
    (htogether : msids ≠ [] → semantic ≠ []) (hsection : s.inMediaSession = false)
    (hs : s.msids = []) (hs' : s.msidSemantic = []) :
    s.Reads (if semantic ≠ [] ∨ msids ≠ [] then
        ["a=msid-semantic: ".toList ++ semantic ++ msids.flatMap spaced] else [])
      { s with msidSemantic := semantic, msids := msids } := by
  split
  · next hor =>
    have hword : IsWord semantic := ⟨hor.elim id htogether, hsemantic⟩
    rw [List.append_assoc]
    apply Reads.attribute ("msid-semantic".toList ++ ':' ::
      (spaced semantic ++ msids.flatMap spaced)) hsection
    · apply Tidy.append (a := "msid-semantic:".toList) (by decide)
      show Tidy (spaced semantic ++ msids.flatMap spaced)
      apply tidy_flatMap (fun w => w) _ hmsids
      exact Tidy.append (a := [' ']) (by decide) (tidy_of_isWord hword)
    · unfold SrsSdp.parseAttribute
      rw [upTo_append (by decide)]
      show (fetch (word _) >>= _) = _
      rw [bind_eq_ok]
      refine ⟨_, fetch_spaced hword (apart_flatMap (fun w => w) msids), ?_⟩
      dsimp only
      rw [readAll_words hmsids, hs, List.nil_append]
  · next hnot =>
    rw [not_or, not_not, not_not] at hnot
    rw [hnot.1, hnot.2]
    cases s
    dsimp only at hs hs'
    rw [hs, hs']
    exact .nil _

/-- The lines in front of the media sections. -/
theorem reads_session (h : s.WellFormed) (hs : s.Lossless) :
    ({} : SrsSdp).Reads
      (["v=".toList ++ s.version,
          "o=".toList ++ s.username ++ spaced s.sessionId ++ spaced s.sessionVersion ++
            spaced s.nettype ++ spaced s.addrtype ++ spaced s.unicastAddress,
          "s=".toList ++ s.sessionName] ++
        optional s.connection s.connection ++
        ["t=".toList ++ showInt s.startTime ++ spaced (showInt s.endTime)] ++
        optional s.iceLite s.iceLite ++
        (if s.groups = [] then [] else
          ["a=group:".toList ++ s.groupPolicy ++ s.groups.flatMap spaced]) ++
        (if s.msidSemantic ≠ [] ∨ s.msids ≠ [] then
          ["a=msid-semantic: ".toList ++ s.msidSemantic ++ s.msids.flatMap spaced] else []) ++
        s.sessionInfo.encode)
      { s.kept with inMediaSession := false, mediaDescs := [] } := by
  have hversion : ({} : SrsSdp).Reads ["v=".toList ++ s.version] { version := s.version } := by
    apply Reads.line (c := 'v') (by decide) (tidy_of_isWord h.version)
    show (fetch (word s.version) >>= _) = _
    rw [word_self h.version]
    rfl
  have horigin : SrsSdp.Reads { version := s.version }
      ["o=".toList ++ s.username ++ spaced s.sessionId ++ spaced s.sessionVersion ++
        spaced s.nettype ++ spaced s.addrtype ++ spaced s.unicastAddress]
      { version := s.version, username := s.username, sessionId := s.sessionId
        sessionVersion := s.sessionVersion, nettype := s.nettype, addrtype := s.addrtype
        unicastAddress := s.unicastAddress } := by
    have hspaced : ∀ {w : Text}, IsWord w → '\n' ∉ spaced w := fun hw =>
      (Tidy.append (a := [' ']) (by decide) (tidy_of_isWord hw)).noBreak
    repeat rw [List.append_assoc]
    apply @Reads.line _ _ 'o' (s.username ++ (spaced s.sessionId ++ (spaced s.sessionVersion ++
      (spaced s.nettype ++ (spaced s.addrtype ++ spaced s.unicastAddress))))) (by decide)
    · apply Tidy.append (noBreak_of_solid h.username.2)
      apply Tidy.append (hspaced h.sessionId)
      apply Tidy.append (hspaced h.sessionVersion)
      apply Tidy.append (hspaced h.nettype)
      apply Tidy.append (hspaced h.addrtype)
      exact Tidy.append (a := [' ']) (by decide) (tidy_of_isWord h.unicastAddress)
    · show SrsSdp.parseOrigin _ _ = _
      simp only [parseOrigin, bind_eq_ok]
      exact ⟨_, fetch_word h.username (apart_spaced_append _ _),
        _, fetch_spaced h.sessionId (apart_spaced_append _ _),
        _, fetch_spaced h.sessionVersion (apart_spaced_append _ _),
        _, fetch_spaced h.nettype (apart_spaced_append _ _),
        _, fetch_spaced h.addrtype (apart_spaced _), _, fetch_spaced_self h.unicastAddress, rfl⟩
  have hname : SrsSdp.Reads
      { version := s.version, username := s.username, sessionId := s.sessionId
        sessionVersion := s.sessionVersion, nettype := s.nettype, addrtype := s.addrtype
        unicastAddress := s.unicastAddress } ["s=".toList ++ s.sessionName]
      { version := s.version, username := s.username, sessionId := s.sessionId
        sessionVersion := s.sessionVersion, nettype := s.nettype, addrtype := s.addrtype
        unicastAddress := s.unicastAddress, sessionName := s.sessionName } :=
    Reads.line (c := 's') (by decide) h.sessionName.toTidy rfl
  generalize hs₀ : ({ version := s.version, username := s.username, sessionId := s.sessionId,
                      sessionVersion := s.sessionVersion, nettype := s.nettype,
                      addrtype := s.addrtype, unicastAddress := s.unicastAddress,
                      sessionName := s.sessionName } : SrsSdp) = s₀ at hname
  have htiming : s₀.Reads ["t=".toList ++ showInt s.startTime ++ spaced (showInt s.endTime)]
      { s₀ with startTime := s.startTime, endTime := s.endTime } := by
    rw [List.append_assoc]
    apply @Reads.line _ _ 't' (showInt s.startTime ++ spaced (showInt s.endTime)) (by decide)
    · apply Tidy.append (noBreak_of_solid (isWord_showInt s.startTime).2)
      exact Tidy.append (a := [' ']) (by decide) (tidy_of_isWord (isWord_showInt s.endTime))
    · show SrsSdp.parseTiming _ _ = _
      have hend := int_showInt (s := []) h.endTime.1 h.endTime.2 nofun
      rw [List.append_nil] at hend
      simp only [parseTiming, bind_eq_ok]
      refine ⟨_, fetch_int h.startTime, (s.endTime, []), ?_, rfl⟩
      rw [show int 64 (s.startTime, spaced (showInt s.endTime)).2 = _ from int_space _ _, hend]
      rfl
  generalize hs₁ : ({ s₀ with startTime := s.startTime, endTime := s.endTime } : SrsSdp) = s₁
    at htiming
  have hsection : s₁.inMediaSession = false := by rw [← hs₁, ← hs₀]
  have hiceLite : s₁.Reads (optional s.iceLite s.iceLite) s₁ := by
    apply Reads.optional (fun _ => rfl)
    intro hne
    rw [h.iceLite.resolve_left hne]
    apply Reads.attribute "ice-lite".toList hsection _ rfl
    constructor <;> decide
  have hgroup := reads_group h.groupPolicy.1 h.groupPolicy.2 h.groups h.together hsection
    (by rw [← hs₁, ← hs₀]) (by rw [← hs₁, ← hs₀])
  have hmsids := reads_msidSemantic (s := { s₁ with groups := s.groups,
                                                    groupPolicy := s.groupPolicy })
    h.msidSemantic h.msids hs.2.1 hsection (by rw [← hs₁, ← hs₀]) (by rw [← hs₁, ← hs₀])
  have hinfo := (SrsSessionInfo.reads_encode h.sessionInfo hs.1).sdp
    (s := { s₁ with groups := s.groups, groupPolicy := s.groupPolicy,
                    msidSemantic := s.msidSemantic, msids := s.msids })
    (by rw [← hs₁, ← hs₀]) hsection
  subst hs₁ hs₀
  exact ((((((((hversion.append horigin).append hname).append
    (Reads.connection _ h.connection)).append htiming).append hiceLite).append hgroup).append
    hmsids).append hinfo)

variable {m : SrsMediaDesc}

/-- What the sources do not say is that of their media description. -/
theorem fillMedia_written (h : m.WellFormed) : fillMedia m.written = m.kept := by
  have hfill : ∀ i ∈ m.ssrcInfos, fillSsrc m.written i.written = i := by
    intro i hi
    unfold SrsSSRCInfo.written
    cases (h.sources i hi).fields with
    | inl hfull =>
      rw [if_neg hfull.ne]
      unfold fillSsrc
      rw [if_neg hfull.msid.1, if_neg hfull.msidTracker.1, if_neg hfull.mslabel.1,
        if_neg hfull.label.1]
    | inr hgb =>
      have hlabel : i.label ≠ [] := by
        rw [hgb.label]
        decide
      rw [if_pos hgb.label]
      unfold fillSsrc
      rw [if_pos rfl, if_neg hlabel]
      show (⟨i.ssrc, i.cname, m.msid, m.msidTracker, m.msid, i.label⟩ : SrsSSRCInfo) = i
      have hmslabel : i.mslabel = i.msid := hgb.mslabel.trans hgb.msid.symm
      rw [← hgb.msidTracker, ← hgb.msid]
      cases i
      dsimp only at hmslabel ⊢
      rw [hmslabel]
  have hsources : (m.ssrcInfos.map SrsSSRCInfo.written).map (fillSsrc m.written) =
      m.ssrcInfos := by
    rw [List.map_map]
    exact (List.map_congr_left (g := id) hfill).trans (List.map_id _)
  unfold fillMedia
  rw [show m.written.ssrcInfos.map (fillSsrc m.written) = m.ssrcInfos from hsources]
  rfl

/-- A description that is well formed and loses nothing is parsed from what was encoded. -/
theorem parse_encode (h : s.WellFormed) (hs : s.Lossless) :
    ∃ text, s.encode = .ok text ∧ parse text = .ok s.kept := by
  obtain ⟨media, hmedia, hread⟩ := SrsMediaDesc.reads_encodes fun m hm =>
    ⟨h.mediaDescs m hm, hs.2.2 m hm⟩
  have hlines := (reads_session h hs).append (hread _)
  have hfill : (s.mediaDescs.map SrsMediaDesc.written).map fillMedia =
      s.mediaDescs.map SrsMediaDesc.kept := by
    rw [List.map_map]
    apply List.map_congr_left
    intro m hm
    exact fillMedia_written (h.mediaDescs m hm)
  refine ⟨_, ?_, hlines.parse.trans ?_⟩
  · unfold encode encodeLines
    simp only [hmedia, bind_eq_ok]
    exact ⟨_, ⟨media, rfl, rfl⟩, rfl⟩
  · dsimp only
    rw [List.nil_append, hfill]
    rfl

/-! ## What is never parsed -/

theorem lossless_info {i : SrsSessionInfo} (h : i.Lossless) (attr value : Text) :
    Ensures SrsSessionInfo.Lossless (i.parseAttribute attr value) := by
  unfold SrsSessionInfo.parseAttribute
  apply ensures_ite <;> intro _
  · exact ensures_ok.2 h
  apply ensures_ite <;> intro _
  · exact ensures_ok.2 h
  apply ensures_ite <;> intro _
  · exact ensures_ok.2 h
  apply ensures_ite <;> intro _
  · refine ensures_bind fun _ _ => ensures_bind fun p hp => ensures_ok.2 fun _ => ?_
    exact (isWord_of_word (fetch_eq_ok.1 hp)).1
  · exact ensures_ite (fun _ => ensures_ok.2 h) (fun _ => ensures_ok.2 h)

/-- What changes a payload keeps the others. -/
theorem lossless_updatePayload (h : m.Lossless) (payloadType : ℤ)
    {f : SrsMediaPayloadType → SrsMediaPayloadType}
    (hf : ∀ p : SrsMediaPayloadType, p.Lossless → (f p).Lossless) :
    (m.updatePayload payloadType f).Lossless := by
  have hgo : ∀ l : List SrsMediaPayloadType, (∀ p ∈ l, p.Lossless) →
      ∀ p ∈ SrsMediaDesc.updatePayload.go payloadType f l, p.Lossless := by
    intro l hl
    induction l with
    | nil => exact hl
    | cons p l ih =>
      rw [List.forall_mem_cons] at hl
      unfold SrsMediaDesc.updatePayload.go
      split
      · exact List.forall_mem_cons.2 ⟨hf p hl.1, hl.2⟩
      · exact List.forall_mem_cons.2 ⟨hl.1, ih hl.2⟩
  exact ⟨h.1, hgo m.payloadTypes h.2⟩

theorem lossless_setRtpmap (value : Text) (parts : List Text) :
    Ensures (fun f => ∀ p : SrsMediaPayloadType, p.Lossless → (f p).Lossless)
      (SrsMediaDesc.setRtpmap value parts) := by
  unfold SrsMediaDesc.setRtpmap
  split
  · exact ensures_ok.2 fun _ hp => hp
  · exact ensures_ok.2 fun _ hp => hp
  · exact ensures_fail _

theorem lossless_parseMedia (h : m.Lossless) (content : Text) :
    Ensures SrsMediaDesc.Lossless (m.parseAttribute content) := by
  unfold SrsMediaDesc.parseAttribute
  dsimp only
  apply ensures_ite <;> intro _
  · refine ensures_bind fun p _ => ?_
    exact ensures_ite (fun _ => ensures_fail _) fun _ => ensures_bind fun _ _ => ensures_ok.2 h
  apply ensures_ite <;> intro _
  · refine ensures_bind fun _ _ => ensures_bind fun _ _ => ensures_bind fun f hf => ?_
    exact ensures_ok.2 (lossless_updatePayload h _ (lossless_setRtpmap _ _ f hf))
  apply ensures_ite <;> intro _
  · exact ensures_ok.2 h
  apply ensures_ite <;> intro _
  · refine ensures_bind fun _ _ => ensures_bind fun _ _ => ?_
    exact ensures_ok.2 (lossless_updatePayload h _ fun _ hp => hp)
  apply ensures_ite <;> intro _
  · refine ensures_bind fun _ _ => ensures_bind fun p hp => ?_
    exact ensures_ok.2 (lossless_updatePayload h _ fun _ _ => (isWord_of_word (fetch_eq_ok.1 hp)).2)
  apply ensures_ite <;> intro _
  · exact ensures_bind fun _ _ => ensures_ok.2 h
  apply ensures_ite <;> intro _
  · refine ensures_bind fun ⟨msid, is⟩ _ => ?_
    dsimp only
    split
    · exact ensures_ok.2 h
    · exact ensures_ok.2 h
  apply ensures_ite <;> intro _
  · exact ensures_bind fun _ _ => ensures_bind fun _ _ => ensures_ok.2 h
  apply ensures_ite <;> intro _
  · exact ensures_bind fun _ _ => ensures_bind fun _ _ => ensures_ok.2 h
  iterate 6
    apply ensures_ite <;> intro _
    · exact ensures_ok.2 h
  exact ensures_bind fun i hi => ensures_ok.2 ⟨lossless_info h.1 _ _ i hi, h.2⟩

theorem lossless_parseMediaLine (h : s.Lossless) (line : Text) :
    Ensures Lossless (s.parseMediaLine line) := by
  unfold parseMediaLine
  split
  · exact ensures_error _
  · next m hlast =>
    have hm := h.2.2 m (List.mem_of_getLast? hlast)
    refine ensures_bind fun m' hm' => ensures_ok.2 ⟨h.1, h.2.1, ?_⟩
    have hlossless : m'.Lossless := by
      unfold SrsMediaDesc.parseLine at hm'
      split at hm'
      · split at hm'
        · exact lossless_parseMedia hm _ m' hm'
        · cases hm'
          exact hm
      · cases hm'
    intro d hd
    rcases List.mem_append.1 hd with hd | hd
    · exact h.2.2 d (List.mem_of_mem_dropLast hd)
    · rw [List.mem_singleton.1 hd]
      exact hlossless

theorem lossless_parseAttribute (h : s.Lossless) (content : Text) :
    Ensures Lossless (s.parseAttribute content) := by
  unfold parseAttribute
  dsimp only
  apply ensures_ite <;> intro _
  · apply ensures_ite <;> intro _
    · exact ensures_ok.2 h
    · exact ensures_bind fun _ _ => ensures_ok.2 h
  apply ensures_ite <;> intro _
  · refine ensures_bind fun p hp => ensures_ok.2 ⟨h.1, fun _ => ?_, h.2.2⟩
    exact (isWord_of_word (fetch_eq_ok.1 hp)).1
  · exact ensures_bind fun i hi => ensures_ok.2 ⟨lossless_info h.1 _ _ i hi, h.2⟩

/-- Every line keeps what is lossless. -/
theorem lossless_parseLine (h : s.Lossless) (line : Text) :
    Ensures Lossless (s.parseLine line) := by
  unfold parseLine
  split
  · apply ensures_ite <;> intro _
    · repeat (refine ensures_bind fun _ _ => ?_)
      exact ensures_ok.2 h
    apply ensures_ite <;> intro _
    · exact ensures_bind fun _ _ => ensures_ok.2 h
    apply ensures_ite <;> intro _
    · exact ensures_ok.2 h
    apply ensures_ite <;> intro _
    · exact ensures_bind fun _ _ => ensures_bind fun _ _ => ensures_ok.2 h
    apply ensures_ite <;> intro _
    · apply ensures_ite <;> intro _
      · exact lossless_parseMediaLine h _
      · exact lossless_parseAttribute h _
    apply ensures_ite <;> intro _
    · exact ensures_bind fun s' hs' =>
        lossless_parseMediaLine (lossless_parseMediaLine h _ s' hs') _
    apply ensures_ite <;> intro _
    · refine ensures_bind fun _ _ => ensures_bind fun _ _ => ensures_bind fun _ _ => ?_
      refine ensures_ok.2 ⟨h.1, h.2.1, fun d hd => ?_⟩
      rcases List.mem_append.1 hd with hd | hd
      · exact h.2.2 d hd
      · rw [List.mem_singleton.1 hd]
        refine ⟨fun hne => absurd rfl hne, fun p hp => ?_⟩
        obtain ⟨fmt, -, rfl⟩ := List.mem_map.1 hp
        exact nofun
    · exact ensures_ok.2 h
  · exact ensures_error _

/-- What is parsed loses nothing when it is encoded. -/
theorem lossless_parse (text : Text) : Ensures Lossless (parse text) := by
  have hlines : ∀ (ls : List Text) (s : SrsSdp), s.Lossless → Ensures Lossless (s.parseLines ls) := by
    intro ls
    induction ls with
    | nil => exact fun s hs => ensures_ok.2 hs
    | cons line ls ih =>
      intro s hs
      rw [parseLines_cons]
      refine ensures_bind fun s' hs' => ih s' ?_
      unfold parseRawLine at hs'
      split at hs'
      · exact lossless_parseLine hs _ s' hs'
      · cases hs'
  refine ensures_bind fun s hs => ensures_ok.2 ?_
  obtain ⟨hinfo, hmsids, hmedia⟩ := hlines _ {} ⟨fun h => absurd rfl h, fun h => absurd rfl h,
    fun m hm => absurd hm List.not_mem_nil⟩ s hs
  refine ⟨hinfo, hmsids, fun m hm => ?_⟩
  obtain ⟨d, hd, rfl⟩ := List.mem_map.1 hm
  exact hmedia d hd

/-- A well-formed description is parsed from what was encoded exactly if nothing is lost. -/
theorem parse_encode_iff (s : SrsSdp) (h : s.WellFormed) :
    (∃ text, s.encode = .ok text ∧ parse text = .ok s.kept) ↔ s.Lossless := by
  constructor
  · rintro ⟨text, -, hparse⟩
    obtain ⟨hinfo, hmsids, hmedia⟩ := lossless_parse text _ hparse
    refine ⟨hinfo, hmsids, fun m hm => ?_⟩
    exact hmedia m.kept (List.mem_map_of_mem hm)
  · exact parse_encode h

/-- A description with one video section, whose format has some parameters. -/
def sample (fmtp : Text) : SrsSdp :=
  { version := "0".toList, username := "-".toList, sessionId := "1".toList
    sessionVersion := "2".toList, nettype := "IN".toList, addrtype := "IP4".toList
    unicastAddress := "127.0.0.1".toList, sessionName := "live show".toList
    groups := ["0".toList], groupPolicy := "BUNDLE".toList
    msidSemantic := "WMS".toList, msids := ["live".toList]
    mediaDescs := [{
      type := "video".toList, protos := "UDP/TLS/RTP/SAVPF".toList, port := 9, mid := "0".toList
      payloadTypes := [{
        payloadType := 106, encodingName := "H264".toList, clockRate := 90000
        rtcpFb := ["nack pli".toList], formatSpecificParam := fmtp }]
      ssrcInfos := [{
        ssrc := 5, cname := "a".toList, msid := "live".toList, msidTracker := "v0".toList
        mslabel := "live".toList, label := "v0".toList }] }] }

theorem wellFormed_sample {fmtp : Text} (h : IsLine fmtp) : (sample fmtp).WellFormed := by
  -- the parameters stay a variable, so the other fields are evaluated one by one
  have hword : ∀ w : Text, decide (IsWord w) = true → IsWord w := fun _ => of_decide_eq_true
  have hsolid : ∀ w : Text, decide (Solid w) = true → Solid w := fun _ => of_decide_eq_true
  have hrange : ∀ z : ℤ, decide (0 ≤ z ∧ z < 2 ^ 31) = true → InRange 32 z ∧ InRange 64 z := by
    intro z hz
    have hz := of_decide_eq_true hz
    constructor <;> constructor <;> norm_num <;> omega
  have hnone : SrsSessionInfo.WellFormed {} := by
    constructor <;> decide
  have hpayload : SrsMediaPayloadType.WellFormed ⟨106, "H264".toList, 90000, [],
      ["nack pli".toList], fmtp⟩ := by
    refine ⟨(hrange _ rfl).1, ⟨hsolid _ rfl, of_decide_eq_true rfl⟩, (hrange _ rfl).1,
      ⟨hsolid _ rfl, of_decide_eq_true rfl⟩, ?_, fun _ => h⟩
    intro fb hfb
    rw [List.mem_singleton.1 hfb]
    exact ⟨⟨by decide, by decide, by decide⟩, by decide⟩
  have hsource : ∀ m : SrsMediaDesc, SrsSSRCInfo.WellFormed m ⟨5, "a".toList, "live".toList,
      "v0".toList, "live".toList, "v0".toList⟩ := fun m =>
    ⟨by decide, by decide, .inl ⟨by decide, by decide, by decide, by decide, by decide, by decide⟩⟩
  refine ⟨hword _ rfl, hword _ rfl, hword _ rfl, hword _ rfl, hword _ rfl, hword _ rfl,
    hword _ rfl, ⟨⟨of_decide_eq_true rfl, of_decide_eq_true rfl, of_decide_eq_true rfl⟩,
    of_decide_eq_true rfl⟩, (hrange _ rfl).2, (hrange _ rfl).2, .inl rfl, hnone, ?_,
    ⟨hsolid _ rfl, rfl⟩, of_decide_eq_true rfl, .inr rfl, hsolid _ rfl, ?_, ?_⟩
  · intro g hg
    rw [List.mem_singleton.1 hg]
    decide
  · intro id hid
    rw [List.mem_singleton.1 hid]
    decide
  · intro m hm
    rw [List.mem_singleton.1 hm]
    refine ⟨hword _ rfl, hnone, (hrange _ rfl).1, hsolid _ rfl, hsolid _ rfl, hsolid _ rfl, nofun,
      hword _ rfl, ?_, List.nodup_singleton _, .inr ⟨_, rfl, by decide⟩, nofun, ?_,
      List.nodup_singleton _, nofun⟩
    · intro p hp
      rw [List.mem_singleton.1 hp]
      exact hpayload
    · intro i hi
      rw [List.mem_singleton.1 hi]
      exact hsource _

theorem parse_encode_iff_of_sample :
    (∃ text, (sample "packetization-mode=1".toList).encode = .ok text ∧
      parse text = .ok (sample "packetization-mode=1".toList).kept) ↔
      (sample "packetization-mode=1".toList).Lossless :=
  parse_encode_iff _ (wellFormed_sample ⟨⟨by decide, by decide, by decide⟩, by decide⟩)

/-- The parameters of a format in two words are not parsed as they were. -/
theorem two_words_lost :
    ¬ ∀ s : SrsSdp, s.WellFormed → ∃ text, s.encode = .ok text ∧ parse text = .ok s.kept := by
  intro h
  have hline : IsLine "packetization-mode=1; profile-level-id=42e01f".toList :=
    ⟨⟨by decide, by decide, by decide⟩, by decide⟩
  obtain ⟨text, -, hparse⟩ := h _ (wellFormed_sample hline)
  obtain ⟨-, -, hmedia⟩ := lossless_parse text _ hparse
  have hsolid : Solid "packetization-mode=1; profile-level-id=42e01f".toList :=
    (hmedia _ List.mem_cons_self).2 _ List.mem_cons_self
  exact absurd hsolid (by decide)

end SrsSdp

end SrsChatRoom.App.Sdp
