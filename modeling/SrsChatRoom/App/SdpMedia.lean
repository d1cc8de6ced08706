import SrsChatRoom.App.SdpLines

/-!
# Media descriptions that are read as they were written

A description is well formed if its words are words and its numbers are in their ranges. The lines
of a media description are read part by part: its session information, its payloads, the other
attributes and its sources, each of which leads to what was written if that is `Lossless`.
-/

namespace SrsChatRoom.App.Sdp

open TextStream
open List (append_assoc append_nil cons_append mem_cons_of_mem mem_cons_self)

/-! ## Well-formed descriptions -/

/-- Any text in one line, with no space around it. -/
structure IsLine (t : Text) : Prop extends Tidy t where
  first : t.head? ≠ some ' '

/-- A number of an `int` of some bits. -/
def InRange (bits : ℕ) (z : ℤ) : Prop := -2 ^ (bits - 1) ≤ z ∧ z < 2 ^ (bits - 1)

structure SrsSessionInfo.WellFormed (i : SrsSessionInfo) : Prop where
  iceUfrag : Solid i.iceUfrag
  icePwd : Solid i.icePwd
  iceOptions : Solid i.iceOptions
  fingerprintAlgo : Solid i.fingerprintAlgo
  fingerprint : Solid i.fingerprint
  setup : Solid i.setup
  together : i.fingerprint ≠ [] → i.fingerprintAlgo ≠ []

structure SrsMediaPayloadType.WellFormed (p : SrsMediaPayloadType) : Prop where
  payloadType : InRange 32 p.payloadType
  encodingName : Solid p.encodingName ∧ '/' ∉ p.encodingName
  clockRate : InRange 32 p.clockRate
  encodingParam : Solid p.encodingParam ∧ '/' ∉ p.encodingParam
  rtcpFb : ∀ fb ∈ p.rtcpFb, IsLine fb
  formatSpecificParam : p.formatSpecificParam ≠ [] → IsLine p.formatSpecificParam

/-- A source with all its fields, that is not of the form `y=`. -/
structure SrsSSRCInfo.Full (i : SrsSSRCInfo) : Prop where
  cname : IsWord i.cname
  msid : IsWord i.msid
  msidTracker : IsWord i.msidTracker
  mslabel : IsWord i.mslabel
  label : IsWord i.label
  ne : i.label ≠ "gb28181".toList

/-- A source of the form `y=`. -/
structure SrsSSRCInfo.Gb28181 (m : SrsMediaDesc) (i : SrsSSRCInfo) : Prop where
  label : i.label = "gb28181".toList
  cname : i.cname = showNat i.ssrc
  msid : i.msid = m.msid
  msidTracker : i.msidTracker = m.msidTracker
  mslabel : i.mslabel = m.msid

structure SrsSSRCInfo.WellFormed (m : SrsMediaDesc) (i : SrsSSRCInfo) : Prop where
  ne_zero : i.ssrc ≠ 0
  lt : i.ssrc < 2 ^ 32
  fields : i.Full ∨ i.Gb28181 m

structure SrsCandidate.WellFormed (c : SrsCandidate) : Prop where
  ip : IsWord c.ip
  type : IsWord c.type

structure SrsMediaDesc.WellFormed (m : SrsMediaDesc) : Prop where
  type : IsWord m.type
  sessionInfo : m.sessionInfo.WellFormed
  port : InRange 32 m.port
  mid : Solid m.mid
  msid : Solid m.msid
  msidTracker : Solid m.msidTracker
  together : m.msidTracker ≠ [] → m.msid ≠ []
  protos : IsWord m.protos
  payloads : ∀ p ∈ m.payloadTypes, p.WellFormed
  payloadTypes : (m.payloadTypes.map (·.payloadType)).Nodup
  connection : IsConnection m.connection
  candidates : ∀ c ∈ m.candidates, c.WellFormed
  sources : ∀ i ∈ m.ssrcInfos, i.WellFormed m
  ssrcs : (m.ssrcInfos.map (·.ssrc)).Nodup
  extmaps : ∀ e ∈ m.extmaps.entries, InRange 32 e.1 ∧ IsWord e.2

structure SrsSdp.WellFormed (s : SrsSdp) : Prop where
  version : IsWord s.version
  username : IsWord s.username
  sessionId : IsWord s.sessionId
  sessionVersion : IsWord s.sessionVersion
  nettype : IsWord s.nettype
  addrtype : IsWord s.addrtype
  unicastAddress : IsWord s.unicastAddress
  sessionName : IsLine s.sessionName
  startTime : InRange 64 s.startTime
  endTime : InRange 64 s.endTime
  connection : IsConnection s.connection
  sessionInfo : s.sessionInfo.WellFormed
  groups : ∀ g ∈ s.groups, IsWord g
  groupPolicy : Solid s.groupPolicy ∧ "LS".toList.isPrefixOf s.groupPolicy = false
  together : s.groups = [] ↔ s.groupPolicy = []
  iceLite : s.iceLite = [] ∨ s.iceLite = "a=ice-lite".toList
  msidSemantic : Solid s.msidSemantic
  msids : ∀ id ∈ s.msids, IsWord id
  mediaDescs : ∀ m ∈ s.mediaDescs, m.WellFormed

/-! ## What is kept -/

/-- Candidates, groups of sources and connection data are not parsed. -/
def SrsMediaDesc.kept (m : SrsMediaDesc) : SrsMediaDesc :=
  { m with
    connection := "c=IN IP4 0.0.0.0".toList
    candidates := []
    ssrcGroups := [] }

/-- What `parse` can give again of a description. -/
def SrsSdp.kept (s : SrsSdp) : SrsSdp :=
  { s with
    connection := []
    iceLite := "a=ice-lite".toList
    inMediaSession := !s.mediaDescs.isEmpty
    mediaDescs := s.mediaDescs.map SrsMediaDesc.kept }

/-- What the lines of a source say; the rest is filled in. -/
def SrsSSRCInfo.written (i : SrsSSRCInfo) : SrsSSRCInfo :=
  if i.label = "gb28181".toList then { ssrc := i.ssrc, cname := i.cname, label := i.label } else i

/-- What the lines of a media description say. -/
def SrsMediaDesc.written (m : SrsMediaDesc) : SrsMediaDesc :=
  { m.kept with ssrcInfos := m.ssrcInfos.map SrsSSRCInfo.written }

/-- An algorithm is written only with its fingerprint. -/
def SrsSessionInfo.Lossless (i : SrsSessionInfo) : Prop :=
  i.fingerprintAlgo ≠ [] → i.fingerprint ≠ []

/-- The parameters of a format are read as one word. -/
def SrsMediaPayloadType.Lossless (p : SrsMediaPayloadType) : Prop := Solid p.formatSpecificParam

def SrsMediaDesc.Lossless (m : SrsMediaDesc) : Prop :=
  m.sessionInfo.Lossless ∧ ∀ p ∈ m.payloadTypes, p.Lossless

/-- The first stream id would be read as the semantic. -/
def SrsSdp.Lossless (s : SrsSdp) : Prop :=
  s.sessionInfo.Lossless ∧ (s.msids ≠ [] → s.msidSemantic ≠ []) ∧
    ∀ m ∈ s.mediaDescs, m.Lossless

/-! ## Words and numbers that are fetched -/

theorem apart_spaced (w : Text) : Apart (spaced w) := apart_space w

theorem apart_spaced_append (w s : Text) : Apart (spaced w ++ s) := apart_space (w ++ s)

variable {w : Text}

theorem fetch_word {s : Text} (hw : IsWord w) (hs : Apart s) :
    fetch (word (w ++ s)) = .ok (w, s) := by
  rw [word_append hw hs]
  rfl

theorem fetch_spaced {s : Text} (hw : IsWord w) (hs : Apart s) :
    fetch (word (spaced w ++ s)) = .ok (w, s) := by
  rw [spaced, cons_append, word_space, fetch_word hw hs]

/-- A last word. -/
theorem fetch_spaced_self (hw : IsWord w) : fetch (word (spaced w)) = .ok (w, []) := by
  have h := fetch_spaced hw apart_nil
  rwa [append_nil] at h

/-- A number with a word behind it. -/
theorem fetch_int {bits : ℕ} {z : ℤ} (hz : InRange bits z) :
    fetch (int bits (showInt z ++ spaced w)) = .ok (z, spaced w) := by
  rw [int_showInt hz.1 hz.2 (by simp [spaced])]
  rfl

theorem skipFirstSpaces_spaced {t : Text} (h : t.head? ≠ some ' ') :
    skipFirstSpaces (spaced t) = t := by
  cases t with
  | nil => rfl
  | cons c t =>
    have hc : c ≠ ' ' := by simpa using h
    simp [skipFirstSpaces, spaced, hc]

theorem atoi_showInt {z : ℤ} (hz : InRange 32 z) : atoi (showInt z) = z := by
  have hnumber := number_showInt (z := z) (s := []) nofun
  have hlower := hz.1
  have hupper := hz.2
  rw [append_nil] at hnumber
  have hcut : max (-2 ^ 63) (min (2 ^ 63 - 1) z) = z := by
    norm_num at hlower hupper ⊢
    omega
  unfold atoi
  rw [hnumber]
  dsimp only
  rw [signed_natAbs, hcut]
  apply Int.bmod_eq_of_le
  · norm_num at hlower ⊢
    omega
  · norm_num at hupper ⊢
    omega

/-- Words behind a text that is tidy. -/
theorem tidy_flatMap {α : Type} (write : α → Text) {a : Text} (ha : Tidy a) {l : List α}
    (hl : ∀ v ∈ l, IsWord (write v)) : Tidy (a ++ l.flatMap fun v => spaced (write v)) := by
  induction l generalizing a with
  | nil =>
    rw [List.flatMap_nil, append_nil]
    exact ha
  | cons v l ih =>
    rw [List.flatMap_cons, ← append_assoc]
    apply ih
    · apply Tidy.append ha.noBreak
      exact Tidy.append (a := [' ']) (by decide) (tidy_of_isWord (hl v mem_cons_self))
    · exact fun w hw => hl w (mem_cons_of_mem _ hw)

theorem apart_flatMap {α : Type} (write : α → Text) (l : List α) :
    Apart (l.flatMap fun v => spaced (write v)) := by
  cases l with
  | nil => exact apart_nil
  | cons v l => exact apart_spaced_append _ _

/-! ## The session information -/

theorem SrsSessionInfo.parseAttribute_fingerprint (i : SrsSessionInfo) {algo fingerprint : Text}
    (halgo : IsWord algo) (hfingerprint : IsWord fingerprint) :
    i.parseAttribute "fingerprint".toList (algo ++ spaced fingerprint) =
      .ok { i with fingerprintAlgo := algo, fingerprint := fingerprint } := by
  unfold SrsSessionInfo.parseAttribute
  rw [if_neg (by decide), if_neg (by decide), if_neg (by decide), if_pos rfl,
    fetch_word halgo (apart_spaced _)]
  show fetch (word (spaced fingerprint)) >>= _ = _
  rw [fetch_spaced_self hfingerprint]
  rfl

theorem SrsSessionInfo.reads_encode {i : SrsSessionInfo} (h : i.WellFormed) (hi : i.Lossless) :
    ({} : SrsSessionInfo).Reads i.encode i := by
  have hufrag : ({} : SrsSessionInfo).Reads
      (optional i.iceUfrag ("a=ice-ufrag:".toList ++ i.iceUfrag)) { iceUfrag := i.iceUfrag } := by
    apply Reads.optional
    · intro hnil
      rw [hnil]
    · intro hne
      exact .cons "ice-ufrag".toList (by decide) (tidy_of_isWord ⟨hne, h.iceUfrag⟩) rfl
        (.nil _)
  have hpwd : ({ iceUfrag := i.iceUfrag } : SrsSessionInfo).Reads
      (optional i.icePwd ("a=ice-pwd:".toList ++ i.icePwd))
      { iceUfrag := i.iceUfrag, icePwd := i.icePwd } := by
    apply Reads.optional
    · intro hnil
      rw [hnil]
    · intro hne
      exact .cons "ice-pwd".toList (by decide) (tidy_of_isWord ⟨hne, h.icePwd⟩) rfl
        (.nil _)
  have hoptions : ({ iceUfrag := i.iceUfrag, icePwd := i.icePwd } : SrsSessionInfo).Reads
      (optional i.iceOptions ("a=ice-options:".toList ++ i.iceOptions))
      { iceUfrag := i.iceUfrag, icePwd := i.icePwd, iceOptions := i.iceOptions } := by
    apply Reads.optional
    · intro hnil
      rw [hnil]
    · intro hne
      exact .cons "ice-options".toList (by decide) (tidy_of_isWord ⟨hne, h.iceOptions⟩)
        rfl (.nil _)
  have hfingerprint : SrsSessionInfo.Reads ⟨i.iceUfrag, i.icePwd, i.iceOptions, [], [], []⟩
      (if i.fingerprintAlgo ≠ [] ∧ i.fingerprint ≠ [] then
        ["a=fingerprint:".toList ++ i.fingerprintAlgo ++ spaced i.fingerprint] else [])
      { i with setup := [] } := by
    split
    · next hne =>
      have halgo : IsWord i.fingerprintAlgo := ⟨hne.1, h.fingerprintAlgo⟩
      have hfp : IsWord i.fingerprint := ⟨hne.2, h.fingerprint⟩
      rw [append_assoc]
      apply Reads.cons "fingerprint".toList (by decide) _ _ (.nil _)
      · apply Tidy.append (noBreak_of_solid halgo.2)
        exact Tidy.append (a := [' ']) (by decide) (tidy_of_isWord hfp)
      · exact parseAttribute_fingerprint _ halgo hfp
    · next hnot =>
      -- what is written without both parts is nothing, and neither part is there
      have halgo : i.fingerprintAlgo = [] := by
        by_contra hne
        exact hnot ⟨hne, hi hne⟩
      have hfp : i.fingerprint = [] := by
        by_contra hne
        exact h.together hne halgo
      rw [halgo, hfp]
      exact .nil _
  have hsetup : ({ i with setup := [] } : SrsSessionInfo).Reads
      (optional i.setup ("a=setup:".toList ++ i.setup)) i := by
    apply Reads.optional
    · intro hnil
      rw [← hnil]
    · intro hne
      exact .cons "setup".toList (by decide) (tidy_of_isWord ⟨hne, h.setup⟩) rfl (.nil _)
  exact (((hufrag.append hpwd).append hoptions).append hfingerprint).append hsetup

/-! ## Payloads -/

namespace SrsMediaDesc

/-- The media description with a payload at its place. -/
def withPayload (m : SrsMediaDesc) (done : List SrsMediaPayloadType) (p : SrsMediaPayloadType)
    (todo : List SrsMediaPayloadType) : SrsMediaDesc :=
  { m with payloadTypes := done ++ p :: todo }

section
variable {m : SrsMediaDesc} {done todo : List SrsMediaPayloadType} {q : SrsMediaPayloadType} {z : ℤ}

theorem updatePayload_withPayload (hq : q.payloadType = z) (hdone : ∀ d ∈ done, d.payloadType ≠ z)
    (f : SrsMediaPayloadType → SrsMediaPayloadType) :
    (m.withPayload done q todo).updatePayload z f = m.withPayload done (f q) todo := by
  have hgo : updatePayload.go z f (done ++ q :: todo) = done ++ f q :: todo := by
    induction done with
    | nil => exact if_pos hq
    | cons d done ih =>
      rw [cons_append, updatePayload.go, if_neg (hdone d mem_cons_self),
        ih fun d' hd' => hdone d' (mem_cons_of_mem _ hd')]
      rfl
  simp only [updatePayload, withPayload, hgo]

theorem fetchPayload_withPayload (hq : q.payloadType = z) (hz : InRange 32 z) (attr w : Text) :
    (m.withPayload done q todo).fetchPayload attr (showInt z ++ spaced w) =
      .ok (z, spaced w) := by
  have hfound : ((m.withPayload done q todo).findPayload z).isSome = true := by
    simp [findPayload, withPayload, hq]
  unfold fetchPayload
  rw [fetch_int hz]
  show (if _ then _ else _) = _
  rw [if_pos hfound]

variable {name param : Text}

/-- The words of a `rtpmap`. -/
theorem setRtpmap_encode {rate : ℤ} (hname : '/' ∉ name)
    (hparam : '/' ∉ param) (hrate : InRange 32 rate) (value : Text) :
    ∃ f, setRtpmap value (split '/' (name ++ '/' :: showInt rate ++
        if param = [] then [] else '/' :: param)) = .ok f ∧
      ∀ p, p.encodingParam = [] → f p =
        { p with encodingName := name, clockRate := rate, encodingParam := param } := by
  have hslash : '/' ∉ showInt rate := by
    intro h
    rcases mem_showInt h with h | h
    · cases h
    · cases h
  split
  · next hnil =>
    have hparts : split '/' (name ++ '/' :: showInt rate ++ []) = [name, showInt rate] := by
      rw [append_nil, split_append hname, split_of_not_mem hslash]
    rw [hparts]
    refine ⟨_, rfl, fun p hp => ?_⟩
    rw [atoi_showInt hrate, hnil, ← hp]
  · have hparts : split '/' (name ++ '/' :: showInt rate ++ '/' :: param) =
        [name, showInt rate, param] := by
      rw [append_assoc, cons_append, split_append hname, split_append hslash,
        split_of_not_mem hparam]
    rw [hparts]
    refine ⟨_, rfl, fun p _ => ?_⟩
    rw [atoi_showInt hrate]

theorem isWord_rtpmap (hname : Solid name) (hparam : Solid param) (rate : ℤ) :
    IsWord (name ++ '/' :: showInt rate ++ if param = [] then [] else '/' :: param) := by
  have hslash : isSpace '/' = false := rfl
  constructor
  · simp
  · intro c hc
    simp only [List.mem_append, List.mem_cons] at hc
    rcases hc with (hc | rfl | hc) | hc
    · exact hname c hc
    · exact hslash
    · exact (isWord_showInt rate).2 c hc
    · split at hc
      · cases hc
      · rcases List.mem_cons.1 hc with rfl | hc
        · exact hslash
        · exact hparam c hc

/-- A line that begins with the number of a payload is tidy. -/
theorem tidy_payload (name : Text) {w : Text} (hname : '\n' ∉ name ++ [':']) (z : ℤ) (hw : Tidy w) :
    Tidy (name ++ ':' :: (showInt z ++ spaced w)) := by
  rw [← List.singleton_append, ← append_assoc]
  apply Tidy.append hname
  apply Tidy.append (noBreak_of_solid (isWord_showInt z).2)
  exact Tidy.append (a := [' ']) (by decide) hw

/-- The line of the `rtpmap`. -/
theorem reads_rtpmap {rate : ℤ} (hname : Solid name ∧ '/' ∉ name)
    (hparam : Solid param ∧ '/' ∉ param) (hrate : InRange 32 rate) (hz : InRange 32 z)
    (hdone : ∀ d ∈ done, d.payloadType ≠ z) (hq : q.payloadType = z) (hnone : q.encodingParam = []) :
    (m.withPayload done q todo).Reads
      ["a=rtpmap:".toList ++ showInt z ++ spaced (name ++ '/' :: showInt rate ++
        if param = [] then [] else '/' :: param)]
      (m.withPayload done
        { q with encodingName := name, clockRate := rate, encodingParam := param } todo) := by
  have hword := isWord_rtpmap hname.1 hparam.1 rate
  obtain ⟨f, hf, hset⟩ := setRtpmap_encode hname.2 hparam.2 hrate (showInt z ++
    spaced (name ++ '/' :: showInt rate ++ if param = [] then [] else '/' :: param))
  rw [append_assoc]
  apply Reads.attribute _ (tidy_payload "rtpmap".toList (by decide) z
    (tidy_of_isWord hword))
  unfold parseAttribute
  rw [attributeOf_append _ (by decide)]
  show parseAttrRtpmap _ _ = _
  simp only [parseAttrRtpmap, bind_eq_ok, fetchPayload_withPayload hq hz]
  refine ⟨_, rfl, _, fetch_spaced_self hword, f, hf, ?_⟩
  rw [updatePayload_withPayload hq hdone, hset q hnone]

/-- The lines of the feedback messages. -/
theorem reads_rtcpFb {l : List Text} (hl : ∀ fb ∈ l, IsLine fb) (hz : InRange 32 z)
    (hdone : ∀ d ∈ done, d.payloadType ≠ z) (hq : q.payloadType = z) :
    (m.withPayload done q todo).Reads
      (l.map fun fb => "a=rtcp-fb:".toList ++ showInt z ++ spaced fb)
      (m.withPayload done { q with rtcpFb := q.rtcpFb ++ l } todo) := by
  induction l generalizing q with
  | nil =>
    rw [append_nil]
    exact .nil _
  | cons fb l ih =>
    have hfb := hl fb mem_cons_self
    have hnext := ih (q := { q with rtcpFb := q.rtcpFb ++ [fb] })
      (fun fb' hfb' => hl fb' (mem_cons_of_mem _ hfb')) hq
    rw [show ({ q with rtcpFb := q.rtcpFb ++ [fb] } : SrsMediaPayloadType).rtcpFb ++ l =
      q.rtcpFb ++ fb :: l by simp] at hnext
    apply Reads.append (a := [_]) _ hnext
    show Reads _ ["a=rtcp-fb:".toList ++ showInt z ++ spaced fb] _
    rw [append_assoc]
    apply Reads.attribute _ (tidy_payload "rtcp-fb".toList (by decide) z hfb.toTidy)
    unfold parseAttribute
    rw [attributeOf_append _ (by decide)]
    show parseAttrRtcpFb _ _ = _
    simp only [parseAttrRtcpFb, bind_eq_ok, fetchPayload_withPayload hq hz]
    refine ⟨_, rfl, _, rfl, ?_⟩
    rw [updatePayload_withPayload hq hdone]
    rw [skipFirstSpaces_spaced hfb.first]

/-- The line of the parameters, of one word. -/
theorem reads_fmtp {w : Text} (hw : Solid w) (hz : InRange 32 z)
    (hdone : ∀ d ∈ done, d.payloadType ≠ z) (hq : q.payloadType = z)
    (hnone : q.formatSpecificParam = []) :
    (m.withPayload done q todo).Reads
      (optional w ("a=fmtp:".toList ++ showInt z ++ spaced w))
      (m.withPayload done { q with formatSpecificParam := w } todo) := by
  apply Reads.optional
  · intro hnil
    rw [hnil, ← hnone]
  · intro hne
    have hword : IsWord w := ⟨hne, hw⟩
    rw [append_assoc]
    apply Reads.attribute _ (tidy_payload "fmtp".toList (by decide) z
      (tidy_of_isWord hword))
    unfold parseAttribute
    rw [attributeOf_append _ (by decide)]
    show parseAttrFmtp _ _ = _
    simp only [parseAttrFmtp, bind_eq_ok, fetchPayload_withPayload hq hz]
    refine ⟨_, rfl, _, fetch_spaced_self hword, ?_⟩
    rw [updatePayload_withPayload hq hdone]

end

variable {m : SrsMediaDesc}

/-- The lines of one payload. -/
theorem reads_payload {done todo : List SrsMediaPayloadType}
    {p : SrsMediaPayloadType} (h : p.WellFormed) (hp : p.Lossless)
    (hdone : ∀ d ∈ done, d.payloadType ≠ p.payloadType) :
    (m.withPayload done { payloadType := p.payloadType } todo).Reads p.encode
      (m.withPayload done p todo) := by
  have hrtpmap := @reads_rtpmap m done todo { payloadType := p.payloadType } p.payloadType _ _ _
    h.encodingName h.encodingParam h.clockRate h.payloadType hdone rfl rfl
  have hrtcpFb := @reads_rtcpFb m done todo
    ⟨p.payloadType, p.encodingName, p.clockRate, p.encodingParam, [], []⟩ p.payloadType _
    h.rtcpFb h.payloadType hdone rfl
  have hfmtp := @reads_fmtp m done todo
    ⟨p.payloadType, p.encodingName, p.clockRate, p.encodingParam, p.rtcpFb, []⟩ p.payloadType _
    hp h.payloadType hdone rfl rfl
  exact (hrtpmap.append hrtcpFb).append hfmtp

/-- The lines of all payloads, one payload after the other. -/
theorem reads_payloads {l : List SrsMediaPayloadType}
    (h : ∀ p ∈ l, p.WellFormed ∧ p.Lossless) (hl : (l.map (·.payloadType)).Nodup)
    (hm : m.payloadTypes = l.map fun p => { payloadType := p.payloadType }) :
    m.Reads (l.flatMap SrsMediaPayloadType.encode) { m with payloadTypes := l } := by
  have hall : ∀ done todo : List SrsMediaPayloadType, done ++ todo = l →
      SrsMediaDesc.Reads
        { m with payloadTypes := done ++ todo.map fun p => { payloadType := p.payloadType } }
        (todo.flatMap SrsMediaPayloadType.encode) { m with payloadTypes := l } := by
    intro done todo hsplit
    induction todo generalizing done with
    | nil =>
      rw [← hsplit]
      exact .nil _
    | cons p todo ih =>
      have hmem : p ∈ l := by simp [← hsplit]
      have hdone : ∀ d ∈ done, d.payloadType ≠ p.payloadType := by
        rw [← hsplit, List.map_append, List.map_cons] at hl
        intro d hd heq
        exact List.disjoint_of_nodup_append hl (List.mem_map_of_mem hd)
          (heq ▸ mem_cons_self)
      have hfirst := @reads_payload m done (todo.map fun p => { payloadType := p.payloadType }) p
        (h p hmem).1 (h p hmem).2 hdone
      have hnext := ih (done ++ [p]) (by rw [← hsplit, append_assoc, List.singleton_append])
      rw [append_assoc, List.singleton_append] at hnext
      rw [List.flatMap_cons]
      exact hfirst.append hnext
  have h := hall [] l rfl
  rw [List.nil_append, ← hm] at h
  exact h

/-! ## The other attributes -/

theorem reads_extmaps {l : List (ℤ × Text)} {ids : SortedMap ℤ Text}
    (hl : ∀ e ∈ l, InRange 32 e.1 ∧ IsWord e.2) (hnodup : (l.map Prod.fst).Nodup)
    (hnew : ∀ e ∈ l, e.1 ∉ ids.entries.map Prod.fst) (hm : m.extmaps = ids) :
    m.Reads (l.map fun (id, ext) => "a=extmap:".toList ++ showInt id ++ spaced ext)
      { m with extmaps := ids.assignAll l } := by
  induction l generalizing m ids with
  | nil =>
    rw [show ids.assignAll [] = m.extmaps from hm.symm]
    exact .nil m
  | cons e l ih =>
    have he := hl e mem_cons_self
    have hfirst : e.1 ∉ l.map Prod.fst := (List.nodup_cons.1 hnodup).1
    have hnext := @ih { m with extmaps := ids.assign e.1 e.2 } (ids.assign e.1 e.2)
      (fun e' he' => hl e' (mem_cons_of_mem _ he')) (List.nodup_cons.1 hnodup).2
      (by
        intro e' he' hmem
        obtain ⟨x, hx, hfst⟩ := List.mem_map.1 hmem
        rcases SortedMap.mem_assign.1 hx with rfl | ⟨hx, -⟩
        · exact hfirst (List.mem_map.2 ⟨e', he', hfst.symm⟩)
        · exact hnew e' (mem_cons_of_mem _ he') (List.mem_map.2 ⟨x, hx, hfst⟩)) rfl
    apply Reads.append (a := [_]) _ hnext
    show Reads _ ["a=extmap:".toList ++ showInt e.1 ++ spaced e.2] _
    rw [append_assoc]
    apply Reads.attribute _ (tidy_payload "extmap".toList (by decide) e.1
      (tidy_of_isWord he.2))
    unfold parseAttribute
    rw [attributeOf_append _ (by decide)]
    show parseAttrExtmap _ _ = _
    simp only [parseAttrExtmap, bind_eq_ok, fetch_int he.1, hm]
    refine ⟨_, rfl, ?_⟩
    rw [if_neg (hnew e mem_cons_self), bind_eq_ok]
    exact ⟨_, fetch_spaced_self he.2, rfl⟩

theorem reads_mid {mid : Text} (h : Solid mid) (hm : m.mid = []) :
    m.Reads (optional mid ("a=mid:".toList ++ mid)) { m with mid := mid } := by
  apply Reads.optional
  · intro hnil
    rw [hnil, ← hm]
  · intro hne
    have hword : IsWord mid := ⟨hne, h⟩
    apply Reads.attribute ("mid".toList ++ ':' :: mid)
    · exact Tidy.append (a := "mid:".toList) (by decide) (tidy_of_isWord hword)
    · unfold parseAttribute
      rw [attributeOf_append _ (by decide)]
      show parseAttrMid _ _ = _
      simp only [parseAttrMid, bind_eq_ok]
      refine ⟨(mid, []), ?_, rfl⟩
      rw [word_self hword]
      rfl

/-- A stream id, with its tracker if there is one. -/
theorem reads_msid {msid tracker : Text} (hmsid : Solid msid)
    (htracker : Solid tracker) (htogether : tracker ≠ [] → msid ≠ []) (hm : m.msid = [])
    (hm' : m.msidTracker = []) :
    m.Reads (optional msid ("a=msid:".toList ++ msid ++ optionalWord tracker))
      { m with msid := msid, msidTracker := tracker } := by
  apply Reads.optional
  · intro hnil
    have htracker : tracker = [] := by
      by_contra hne
      exact htogether hne hnil
    cases m
    dsimp only at hm hm'
    rw [hnil, htracker, hm, hm']
  · intro hne
    have hword : IsWord msid := ⟨hne, hmsid⟩
    rw [append_assoc]
    apply Reads.attribute ("msid".toList ++ ':' :: (msid ++ optionalWord tracker))
    · apply Tidy.append (a := "msid:".toList) (by decide)
      unfold optionalWord
      split
      · show Tidy (msid ++ [])
        rw [append_nil]
        exact tidy_of_isWord hword
      · next hne' =>
        apply Tidy.append (noBreak_of_solid hmsid)
        exact Tidy.append (a := [' ']) (by decide) (tidy_of_isWord ⟨hne', htracker⟩)
    · unfold parseAttribute
      rw [attributeOf_append _ (by decide)]
      show parseAttrMsid _ _ = _
      simp only [parseAttrMsid, bind_eq_ok]
      unfold optionalWord
      split
      · next hnil =>
        refine ⟨(msid, []), ?_, ?_⟩
        · rw [append_nil, word_self hword]
          rfl
        · rw [hnil, ← hm', show word (msid, m.msidTracker).2 = none by rw [hm']; rfl]
      · next hne' =>
        refine ⟨(msid, spaced tracker), fetch_word hword (apart_spaced _), ?_⟩
        rw [show word (msid, spaced tracker).2 = some (tracker, []) from
          (word_space tracker).trans (word_self ⟨hne', htracker⟩)]

/-- A flag is an attribute without a value. -/
theorem reads_flag (f : Bool → SrsMediaDesc) {content : Text} (b : Bool) (hfalse : f false = m)
    (htidy : Tidy content) (htrue : m.parseAttribute content = .ok (f true)) :
    m.Reads (if b then ['a' :: '=' :: content] else []) (f b) := by
  cases b with
  | false =>
    rw [hfalse]
    exact .nil m
  | true => exact .attribute content htidy htrue

/-- The lines of all flags, behind other lines. -/
theorem Reads.flags {m₀ : SrsMediaDesc} {ls : List Text} (h : m₀.Reads ls m)
    (hsendonly : m.sendonly = false) (hrecvonly : m.recvonly = false)
    (hsendrecv : m.sendrecv = false) (hinactive : m.inactive = false)
    (hrtcpMux : m.rtcpMux = false) (hrtcpRsize : m.rtcpRsize = false) (d : SrsMediaDesc) :
    m₀.Reads (ls ++
        (if d.sendonly then ["a=sendonly".toList] else []) ++
        (if d.recvonly then ["a=recvonly".toList] else []) ++
        (if d.sendrecv then ["a=sendrecv".toList] else []) ++
        (if d.inactive then ["a=inactive".toList] else []) ++
        (if d.rtcpMux then ["a=rtcp-mux".toList] else []) ++
        (if d.rtcpRsize then ["a=rtcp-rsize".toList] else []))
      { m with sendonly := d.sendonly, recvonly := d.recvonly, sendrecv := d.sendrecv,
               inactive := d.inactive, rtcpMux := d.rtcpMux, rtcpRsize := d.rtcpRsize } := by
  have htidy : ∀ content ∈ ["sendonly".toList, "recvonly".toList, "sendrecv".toList,
      "inactive".toList, "rtcp-mux".toList, "rtcp-rsize".toList], Tidy content := by
    intro content hmem
    constructor <;> revert content <;> decide
  have hfirst := reads_flag (m := m) (fun b => { m with sendonly := b }) d.sendonly
    (by rw [← hsendonly]) (htidy "sendonly".toList (by decide)) rfl
  have hsecond := reads_flag (m := { m with sendonly := d.sendonly })
    (fun b => { m with sendonly := d.sendonly, recvonly := b }) d.recvonly
    (by rw [← hrecvonly]) (htidy "recvonly".toList (by decide)) rfl
  have hthird := reads_flag (m := { m with sendonly := d.sendonly, recvonly := d.recvonly })
    (fun b => { m with sendonly := d.sendonly, recvonly := d.recvonly, sendrecv := b })
    d.sendrecv (by rw [← hsendrecv]) (htidy "sendrecv".toList (by decide)) rfl
  generalize hm' : ({ m with sendonly := d.sendonly, recvonly := d.recvonly,
                             sendrecv := d.sendrecv } : SrsMediaDesc) = m' at hthird
  have hinactive' : m'.inactive = false := by rw [← hm', ← hinactive]
  have hrtcpMux' : m'.rtcpMux = false := by rw [← hm', ← hrtcpMux]
  have hrtcpRsize' : m'.rtcpRsize = false := by rw [← hm', ← hrtcpRsize]
  have hfourth := reads_flag (m := m') (fun b => { m' with inactive := b }) d.inactive
    (by rw [← hinactive']) (htidy "inactive".toList (by decide)) rfl
  have hfifth := reads_flag (m := { m' with inactive := d.inactive })
    (fun b => { m' with inactive := d.inactive, rtcpMux := b }) d.rtcpMux
    (by rw [← hrtcpMux']) (htidy "rtcp-mux".toList (by decide)) rfl
  have hsixth := reads_flag (m := { m' with inactive := d.inactive, rtcpMux := d.rtcpMux })
    (fun b => { m' with inactive := d.inactive, rtcpMux := d.rtcpMux, rtcpRsize := b })
    d.rtcpRsize (by rw [← hrtcpRsize']) (htidy "rtcp-rsize".toList (by decide)) rfl
  subst hm'
  exact (((((h.append hfirst).append hsecond).append hthird).append hfourth).append hfifth).append
    hsixth

/-- What is not known is ignored. -/
theorem reads_unknown (m : SrsMediaDesc) {value : Text} (hvalue : Tidy value) :
    m.Reads ["a=candidate:".toList ++ value] m := by
  apply Reads.attribute ("candidate".toList ++ ':' :: value)
  · exact Tidy.append (a := "candidate:".toList) (by decide) hvalue
  · unfold parseAttribute
    rw [attributeOf_append _ (by decide)]
    rfl

theorem reads_candidate (m : SrsMediaDesc) {c : SrsCandidate} (hc : c.WellFormed)
    (foundation : ℕ) : m.Reads [c.encode foundation] m := by
  have hnat : ∀ n, '\n' ∉ showNat n := fun n => noBreak_of_solid (isWord_showNat n).2
  have hspaced : ∀ {w : Text}, '\n' ∉ w → '\n' ∉ spaced w := by
    intro w hw
    simp [spaced, hw]
  have hprotocol : '\n' ∉ (if c.protocol = "tcp".toList then "tcp".toList else "udp".toList) := by
    split <;> decide
  have hend : Tidy (if c.protocol = "tcp".toList then " tcptype passive".toList
      else " generation 0".toList) := by
    split <;> constructor <;> decide
  unfold SrsCandidate.encode
  repeat rw [append_assoc]
  apply reads_unknown
  apply Tidy.append (hnat foundation)
  apply Tidy.append (a := " 1 ".toList) (by decide)
  apply Tidy.append hprotocol
  apply Tidy.append (hspaced (hnat priority))
  apply Tidy.append (hspaced (noBreak_of_solid hc.ip.2))
  apply Tidy.append (hspaced (noBreak_of_solid (isWord_showInt c.port).2))
  apply Tidy.append (a := " typ ".toList) (by decide)
  exact Tidy.append (noBreak_of_solid hc.type.2) hend

theorem reads_candidates (m : SrsMediaDesc) {l : List SrsCandidate} (hl : ∀ c ∈ l, c.WellFormed) :
    m.Reads (l.mapIdx SrsCandidate.encode) m := by
  induction l using List.reverseRecOn with
  | nil => exact .nil m
  | append_singleton l c ih =>
    rw [List.mapIdx_concat]
    apply Reads.append (ih fun c' hc' => hl c' (List.mem_append_left _ hc'))
    exact reads_candidate m (hl c (by simp)) l.length

/-! ## Sources -/

/-- The media description with a source behind the others. -/
def withSource (m : SrsMediaDesc) (done : List SrsSSRCInfo) (i : SrsSSRCInfo) : SrsMediaDesc :=
  { m with ssrcInfos := done ++ [i] }

section
variable {m : SrsMediaDesc} {done : List SrsSSRCInfo} {i : SrsSSRCInfo} {z : ℕ}

theorem updateSsrc_new (hm : m.ssrcInfos = done) (hdone : ∀ d ∈ done, d.ssrc ≠ z)
    (f : SrsSSRCInfo → SrsSSRCInfo) :
    m.updateSsrc z f = m.withSource done (f { ssrc := z }) := by
  have hgo : updateSsrc.go z f done = done ++ [f { ssrc := z }] := by
    clear hm
    induction done with
    | nil => rfl
    | cons d done ih =>
      rw [updateSsrc.go, if_neg (hdone d mem_cons_self),
        ih fun d' hd' => hdone d' (mem_cons_of_mem _ hd')]
      rfl
  simp only [updateSsrc, withSource, hm, hgo]

theorem updateSsrc_withSource (hi : i.ssrc = z) (hdone : ∀ d ∈ done, d.ssrc ≠ z)
    (f : SrsSSRCInfo → SrsSSRCInfo) :
    (m.withSource done i).updateSsrc z f = m.withSource done (f i) := by
  have hgo : updateSsrc.go z f (done ++ [i]) = done ++ [f i] := by
    induction done with
    | nil => exact if_pos hi
    | cons d done ih =>
      rw [cons_append, updateSsrc.go, if_neg (hdone d mem_cons_self),
        ih fun d' hd' => hdone d' (mem_cons_of_mem _ hd')]
      rfl
  simp only [updateSsrc, withSource, hgo]

theorem skipFirstSpaces_self {t : Text} (h : t.head? ≠ some ' ') : skipFirstSpaces t = t := by
  cases t with
  | nil => rfl
  | cons c t =>
    have hc : c ≠ ' ' := by simpa using h
    simp [skipFirstSpaces, hc]

theorem head_of_isWord {w : Text} (hw : IsWord w) : w.head? ≠ some ' ' := by
  intro h
  have hspace := hw.2 ' ' (List.mem_of_mem_head? h)
  cases hspace

theorem isLine_of_isWord {w : Text} (hw : IsWord w) : IsLine w :=
  ⟨tidy_of_isWord hw, head_of_isWord hw⟩

/-- An attribute of a source. -/
theorem parseAttribute_ssrc (m : SrsMediaDesc) (hz : z < 2 ^ 32) (name : Text) {value : Text}
    (hname : IsWord name ∧ ':' ∉ name) (hvalue : IsLine value) :
    m.parseAttribute ("ssrc".toList ++ ':' :: (showNat z ++ (spaced name ++ ':' :: value))) =
      .ok (m.updateSsrc z (setSsrc name value)) := by
  have htail : attributeAndTail (spaced name ++ ':' :: value) = .ok (name, value) := by
    have hcolon : ':' ∉ spaced name := by simp [spaced, hname.2]
    unfold attributeAndTail
    rw [if_neg (by simp [spaced]), upTo_append hcolon]
    dsimp only
    rw [skipFirstSpaces_spaced (head_of_isWord hname.1), skipFirstSpaces_self hvalue.first]
  unfold parseAttribute
  rw [attributeOf_append _ (by decide)]
  show parseAttrSsrc _ _ = _
  simp only [parseAttrSsrc, bind_eq_ok]
  refine ⟨(z, spaced name ++ ':' :: value), ?_, _, htail, rfl⟩
  rw [uint_showNat hz (by simp [spaced])]
  rfl

/-- A line of a source. -/
theorem reads_ssrc (m : SrsMediaDesc) (hz : z < 2 ^ 32) (name : Text) {value : Text}
    (hname : IsWord name ∧ ':' ∉ name) (hvalue : IsLine value) :
    m.Reads ["a=ssrc:".toList ++ (showNat z ++ (spaced name ++ ':' :: value))]
      (m.updateSsrc z (setSsrc name value)) := by
  apply Reads.attribute ("ssrc".toList ++ ':' :: (showNat z ++
    (spaced name ++ ':' :: value)))
  · apply Tidy.append (a := "ssrc:".toList) (by decide)
    apply Tidy.append (noBreak_of_solid (isWord_showNat z).2)
    apply Tidy.append (a := [' ']) (by decide)
    apply Tidy.append (noBreak_of_solid hname.1.2)
    exact Tidy.append (a := [':']) (by decide) hvalue.toTidy
  · exact parseAttribute_ssrc m hz name hname hvalue

theorem isLine_spaced {a b : Text} (ha : IsWord a) (hb : IsWord b) : IsLine (a ++ spaced b) where
  toTidy := by
    apply Tidy.append (noBreak_of_solid ha.2)
    exact Tidy.append (a := [' ']) (by decide) (tidy_of_isWord hb)
  first := by
    rw [List.head?_append_of_ne_nil _ ha.1]
    exact head_of_isWord ha

/-- The lines of a source with all its fields. -/
theorem reads_full (h : i.Full) (hz : i.ssrc < 2 ^ 32) (hm : m.ssrcInfos = done)
    (hdone : ∀ d ∈ done, d.ssrc ≠ i.ssrc) (hne : i.ssrc ≠ 0) :
    ∃ ls, i.encode = .ok ls ∧ m.Reads ls (m.withSource done i) := by
  have hspace : ∀ {w : Text}, IsWord w → ' ' ∉ w := by
    intro w hw hmem
    cases hw.2 ' ' hmem
  have hcname := reads_ssrc m hz "cname".toList (by decide) (isLine_of_isWord h.cname)
  rw [updateSsrc_new hm hdone] at hcname
  have hmsid := reads_ssrc (m.withSource done { ssrc := i.ssrc, cname := i.cname }) hz
    "msid".toList (by decide) (isLine_spaced h.msid h.msidTracker)
  rw [updateSsrc_withSource (i := { ssrc := i.ssrc, cname := i.cname }) rfl hdone] at hmsid
  have hmslabel := reads_ssrc (m.withSource done { i with mslabel := [], label := [] }) hz
    "mslabel".toList (by decide) (isLine_of_isWord h.mslabel)
  rw [updateSsrc_withSource (i := { i with mslabel := [], label := [] }) rfl hdone] at hmslabel
  have hlabel := reads_ssrc (m.withSource done { i with label := [] }) hz
    "label".toList (by decide) (isLine_of_isWord h.label)
  rw [updateSsrc_withSource (i := { i with label := [] }) rfl hdone] at hlabel
  have hset : setSsrc "msid".toList (i.msid ++ spaced i.msidTracker)
      { ssrc := i.ssrc, cname := i.cname } = { i with mslabel := [], label := [] } := by
    have hsplit : split ' ' (i.msid ++ spaced i.msidTracker) = [i.msid, i.msidTracker] := by
      rw [spaced, split_append (hspace h.msid), split_of_not_mem (hspace h.msidTracker)]
    unfold setSsrc
    rw [if_neg (by decide), if_pos rfl, hsplit]
  rw [hset] at hmsid
  refine ⟨_, ?_, ((hcname.append hmsid).append hmslabel).append hlabel⟩
  unfold SrsSSRCInfo.encode optional optionalWord
  rw [if_neg hne, if_neg h.ne, if_neg h.msid.1, if_neg h.msidTracker.1, if_neg h.mslabel.1,
    if_neg h.label.1]
  simp only [append_assoc]
  rfl

/-- The line of a source of the form `y=`. -/
theorem reads_gb28181 (hlabel : i.label = "gb28181".toList) (hcname : i.cname = showNat i.ssrc)
    (hz : i.ssrc < 2 ^ 32) (hm : m.ssrcInfos = done) (hdone : ∀ d ∈ done, d.ssrc ≠ i.ssrc)
    (hne : i.ssrc ≠ 0) :
    ∃ ls, i.encode = .ok ls ∧
      m.Reads ls (m.withSource done { ssrc := i.ssrc, cname := i.cname, label := i.label }) := by
  have hword : IsWord i.cname := by
    rw [hcname]
    exact isWord_showNat i.ssrc
  have hcStr : cStr i.cname = i.cname := by
    apply List.takeWhile_eq_self_iff.2
    intro c hc
    rw [hcname] at hc
    have hdigit := isDigit_of_mem_showNat hc
    simp only [ne_eq, decide_eq_true_eq]
    rintro rfl
    cases hdigit
  have hlen : i.cname.length ≤ 10 := by
    rw [hcname]
    exact (Nat.length_toDigits_le_iff (by decide) (by decide)).2 (hz.trans (by decide))
  have hfirst := parseAttribute_ssrc m hz "cname".toList (by decide)
    (isLine_of_isWord hword)
  rw [updateSsrc_new hm hdone, ← hcname] at hfirst
  have hsecond := parseAttribute_ssrc (m.withSource done { ssrc := i.ssrc, cname := i.cname }) hz
    "label".toList (by decide) (isLine_of_isWord (w := "gb28181".toList) (by decide))
  rw [updateSsrc_withSource (i := { ssrc := i.ssrc, cname := i.cname }) rfl hdone, ← hcname,
    ← hlabel] at hsecond
  refine ⟨["y=".toList ++ i.cname], ?_, ?_⟩
  · unfold SrsSSRCInfo.encode
    rw [if_neg hne, if_pos hlabel, if_neg hword.1]
  · apply Reads.source (tidy_of_isWord hword) hcStr (by omega)
    · rw [append_assoc, append_assoc]
      exact hfirst
    · rw [append_assoc]
      show SrsMediaDesc.parseAttribute _ ("ssrc".toList ++ ':' :: (i.cname ++ (spaced "label".toList ++
        ':' :: "gb28181".toList))) = _
      rw [← hlabel]
      exact hsecond

end

theorem reads_source {d : SrsMediaDesc} {i : SrsSSRCInfo} {done : List SrsSSRCInfo}
    (h : i.WellFormed d) (hm : m.ssrcInfos = done) (hdone : ∀ j ∈ done, j.ssrc ≠ i.ssrc) :
    ∃ ls, i.encode = .ok ls ∧ m.Reads ls (m.withSource done i.written) := by
  unfold SrsSSRCInfo.written
  cases h.fields with
  | inl hfull =>
    rw [if_neg hfull.ne]
    exact reads_full hfull h.lt hm hdone h.ne_zero
  | inr hgb =>
    rw [if_pos hgb.label]
    exact reads_gb28181 hgb.label hgb.cname h.lt hm hdone h.ne_zero

@[simp] theorem written_ssrc (i : SrsSSRCInfo) : i.written.ssrc = i.ssrc := by
  unfold SrsSSRCInfo.written
  split <;> rfl

/-- The lines of all sources. -/
theorem reads_sources {d : SrsMediaDesc} {l : List SrsSSRCInfo} (h : ∀ i ∈ l, i.WellFormed d)
    (hl : (l.map (·.ssrc)).Nodup) (hm : m.ssrcInfos = []) :
    ∃ lss, l.mapM SrsSSRCInfo.encode = .ok lss ∧
      m.Reads lss.flatten { m with ssrcInfos := l.map SrsSSRCInfo.written } := by
  have hall : ∀ (done todo : List SrsSSRCInfo) (m : SrsMediaDesc), done ++ todo = l →
      m.ssrcInfos = done.map SrsSSRCInfo.written → ∃ lss, todo.mapM SrsSSRCInfo.encode = .ok lss ∧
        m.Reads lss.flatten { m with ssrcInfos := l.map SrsSSRCInfo.written } := by
    intro done todo
    induction todo generalizing done with
    | nil =>
      intro m hsplit hm
      rw [append_nil] at hsplit
      refine ⟨[], rfl, ?_⟩
      rw [← hsplit, ← hm]
      exact .nil m
    | cons i todo ih =>
      intro m hsplit hm
      have hmem : i ∈ l := by simp [← hsplit]
      have hdone : ∀ j ∈ done.map SrsSSRCInfo.written, j.ssrc ≠ i.ssrc := by
        rw [← hsplit, List.map_append, List.map_cons] at hl
        intro j hj heq
        obtain ⟨k, hk, rfl⟩ := List.mem_map.1 hj
        rw [written_ssrc] at heq
        exact List.disjoint_of_nodup_append hl (List.mem_map_of_mem hk) (heq ▸ mem_cons_self)
      obtain ⟨ls, hls, hread⟩ := reads_source (h i hmem) hm hdone
      obtain ⟨lss, hlss, hreads⟩ := ih (done ++ [i]) (m.withSource (done.map SrsSSRCInfo.written) i.written)
        (by rw [← hsplit, append_assoc, List.singleton_append])
        (by rw [List.map_append]; rfl)
      refine ⟨ls :: lss, ?_, hread.append hreads⟩
      rw [List.mapM_cons]
      simp [hls, hlss]
  exact hall [] l m rfl hm

/-! ## A media description -/

/-- The entries of a map are read into an empty one. -/
theorem reads_all_extmaps {extmaps : SortedMap ℤ Text}
    (h : ∀ e ∈ extmaps.entries, InRange 32 e.1 ∧ IsWord e.2) (hm : m.extmaps = .empty) :
    m.Reads (extmaps.entries.map fun (id, ext) => "a=extmap:".toList ++ showInt id ++ spaced ext)
      { m with extmaps := extmaps } := by
  have hread := reads_extmaps h extmaps.nodup_keys (by simp [SortedMap.empty]) hm
  rwa [SortedMap.assignAll_entries] at hread

/-- The line that begins a media description. -/
theorem reads_mLine (h : m.WellFormed) (s : SrsSdp) :
    s.Reads ["m=".toList ++ m.type ++ spaced (showInt m.port) ++ spaced m.protos ++
        m.payloadTypes.flatMap fun p => spaced (showInt p.payloadType)]
      { s with
        mediaDescs := s.mediaDescs ++ [{
          type := m.type, port := m.port, protos := m.protos
          payloadTypes := m.payloadTypes.map fun p => { payloadType := p.payloadType } }]
        inMediaSession := true } := by
  generalize hnumbers : (m.payloadTypes.flatMap fun p => spaced (showInt p.payloadType)) = numbers
  have hapart : Apart numbers := by
    rw [← hnumbers]
    exact apart_flatMap (fun p : SrsMediaPayloadType => showInt p.payloadType) _
  have hnumber : ∀ v, InRange 32 v → ∀ s, Apart s →
      int 32 (spaced (showInt v) ++ s) = some (v, s) := by
    intro v hv s hs
    rw [spaced, cons_append, int_space,
      int_showInt hv.1 hv.2 fun c hc => isDigit_of_isSpace (hs c hc)]
  have hread : readAll (int 32) numbers = m.payloadTypes.map (·.payloadType) := by
    rw [← hnumbers, ← List.flatMap_map (fun p : SrsMediaPayloadType => p.payloadType)
      (fun v => spaced (showInt v))]
    apply readAll_flatMap (fun s v rest => length_int) rfl
    intro v hv
    obtain ⟨p, hp, rfl⟩ := List.mem_map.1 hv
    exact hnumber _ (h.payloads p hp).payloadType
  rw [append_assoc, append_assoc, append_assoc]
  apply @SrsSdp.Reads.line _ _ 'm' (m.type ++ (spaced (showInt m.port) ++ (spaced m.protos ++
    numbers))) (by decide)
  · apply Tidy.append (noBreak_of_solid h.type.2)
    apply Tidy.append (a := spaced (showInt m.port))
    · exact (Tidy.append (a := [' ']) (by decide) (tidy_of_isWord (isWord_showInt m.port))).noBreak
    · rw [← hnumbers]
      apply tidy_flatMap (fun p : SrsMediaPayloadType => showInt p.payloadType)
      · exact Tidy.append (a := [' ']) (by decide) (tidy_of_isWord h.protos)
      · exact fun p _ => isWord_showInt p.payloadType
  · show s.parseMediaDescription _ = _
    simp only [SrsSdp.parseMediaDescription, bind_eq_ok]
    refine ⟨_, fetch_word h.type (apart_spaced_append _ _), (m.port, spaced m.protos ++ numbers), ?_,
      _, fetch_spaced h.protos hapart, ?_⟩
    · rw [hnumber m.port h.port _ (apart_spaced_append _ _)]
      rfl
    · rw [hread, List.map_map]
      rfl

/-- The lines of a media description, behind the first one. -/
theorem reads_attributes (h : m.WellFormed) (hm : m.Lossless)
    {ssrcs : List (List Text)} (hssrcs : ∀ m' : SrsMediaDesc, m'.ssrcInfos = [] →
      m'.Reads ssrcs.flatten { m' with ssrcInfos := m.ssrcInfos.map SrsSSRCInfo.written }) :
    SrsMediaDesc.Reads
      { type := m.type, port := m.port, protos := m.protos,
        payloadTypes := m.payloadTypes.map fun p => { payloadType := p.payloadType } }
      (optional m.connection m.connection ++
        m.sessionInfo.encode ++
        optional m.mid ("a=mid:".toList ++ m.mid) ++
        optional m.msid ("a=msid:".toList ++ m.msid ++ optionalWord m.msidTracker) ++
        m.extmaps.entries.map (fun (id, ext) => "a=extmap:".toList ++ showInt id ++ spaced ext) ++
        (if m.sendonly then ["a=sendonly".toList] else []) ++
        (if m.recvonly then ["a=recvonly".toList] else []) ++
        (if m.sendrecv then ["a=sendrecv".toList] else []) ++
        (if m.inactive then ["a=inactive".toList] else []) ++
        (if m.rtcpMux then ["a=rtcp-mux".toList] else []) ++
        (if m.rtcpRsize then ["a=rtcp-rsize".toList] else []) ++
        m.payloadTypes.flatMap SrsMediaPayloadType.encode ++
        ssrcs.flatten ++
        m.candidates.mapIdx SrsCandidate.encode)
      m.written := by
  generalize hm₀ : (⟨m.type, {}, m.port, false, false, false, false, false, false, [], [], [],
    m.protos, m.payloadTypes.map fun p => { payloadType := p.payloadType },
    "c=IN IP4 0.0.0.0".toList, [], [], [], .empty⟩ : SrsMediaDesc) = m₀
  have hconnection := Reads.connection m₀ h.connection
  have hinfo := (SrsSessionInfo.reads_encode h.sessionInfo hm.1).media (m := m₀) (by rw [← hm₀])
  have hmid := reads_mid (m := { m₀ with sessionInfo := m.sessionInfo }) h.mid (by rw [← hm₀])
  have hmsid := reads_msid (m := { m₀ with sessionInfo := m.sessionInfo, mid := m.mid }) h.msid
    h.msidTracker h.together (by rw [← hm₀]) (by rw [← hm₀])
  generalize hm₁ : ({ m₀ with sessionInfo := m.sessionInfo, mid := m.mid, msid := m.msid,
                              msidTracker := m.msidTracker } : SrsMediaDesc) = m₁ at hmsid
  have hextmaps := reads_all_extmaps (m := m₁) h.extmaps (by rw [← hm₁, ← hm₀])
  have hflags := ((((hconnection.append hinfo).append hmid).append hmsid).append hextmaps).flags
    (by rw [← hm₁, ← hm₀]) (by rw [← hm₁, ← hm₀]) (by rw [← hm₁, ← hm₀]) (by rw [← hm₁, ← hm₀])
    (by rw [← hm₁, ← hm₀]) (by rw [← hm₁, ← hm₀]) m
  generalize hm₂ : ({ m₁ with extmaps := m.extmaps, sendonly := m.sendonly,
                              recvonly := m.recvonly, sendrecv := m.sendrecv,
                              inactive := m.inactive, rtcpMux := m.rtcpMux,
                              rtcpRsize := m.rtcpRsize } : SrsMediaDesc) = m₂ at hflags
  have hpayloads := reads_payloads (m := m₂)
    (fun p hp => ⟨h.payloads p hp, hm.2 p hp⟩) h.payloadTypes (by rw [← hm₂, ← hm₁, ← hm₀])
  have hsources := hssrcs { m₂ with payloadTypes := m.payloadTypes } (by rw [← hm₂, ← hm₁, ← hm₀])
  have hcandidates := reads_candidates m.written h.candidates
  subst hm₂ hm₁ hm₀
  exact ((hflags.append hpayloads).append hsources).append hcandidates

/-- The lines of a media description lead to what they say of it. -/
theorem reads_encode (h : m.WellFormed) (hm : m.Lossless) :
    ∃ ls, m.encode = .ok ls ∧ ∀ s : SrsSdp,
      s.Reads ls { s with mediaDescs := s.mediaDescs ++ [m.written], inMediaSession := true } := by
  obtain ⟨ssrcs, hencode, -⟩ := reads_sources (m := { type := m.type }) h.sources h.ssrcs rfl
  have hssrcs : ∀ m' : SrsMediaDesc, m'.ssrcInfos = [] →
      m'.Reads ssrcs.flatten { m' with ssrcInfos := m.ssrcInfos.map SrsSSRCInfo.written } := by
    intro m' hm'
    obtain ⟨ssrcs', hencode', hread⟩ := reads_sources h.sources h.ssrcs hm'
    cases hencode.symm.trans hencode'
    exact hread
  have hattributes := reads_attributes h hm hssrcs
  refine ⟨_, ?_, fun s => (reads_mLine h s).append (hattributes _ s.mediaDescs rfl rfl)⟩
  unfold SrsMediaDesc.encode
  rw [bind_eq_ok]
  refine ⟨ssrcs, hencode, ?_⟩
  simp only [append_assoc]

end SrsMediaDesc

end SrsChatRoom.App.Sdp
