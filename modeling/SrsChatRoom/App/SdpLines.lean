import SrsChatRoom.App.SdpSafety

/-!
# Reading written lines

`Reads` says what a parser makes of lines that were written with `kCRLF` behind each. It is stated
for a description, for its last media description, and for the session information that both have;
the lines of one part are read one after the other (`append`), so a description is read part by
part.
-/

namespace SrsChatRoom.App.Sdp

open TextStream

/-! ## Lines that are read as they were written -/

/-- A text that loses nothing at the end of a line. -/
structure Tidy (t : Text) : Prop where
  ne_nil : t ≠ []
  noBreak : '\n' ∉ t
  last : t.getLast? ≠ some ' '

theorem Tidy.append {a b : Text} (ha : '\n' ∉ a) (hb : Tidy b) : Tidy (a ++ b) where
  ne_nil := by simp [hb.ne_nil]
  noBreak := by simp [ha, hb.noBreak]
  last := by
    rw [List.getLast?_append_of_ne_nil _ hb.ne_nil]
    exact hb.last

theorem noBreak_of_solid {w : Text} (hw : Solid w) : '\n' ∉ w := by
  intro h
  have hspace := hw _ h
  simp [isSpace] at hspace

theorem tidy_of_isWord {w : Text} (hw : IsWord w) : Tidy w where
  ne_nil := hw.1
  noBreak := noBreak_of_solid hw.2
  last := by
    intro h
    have hspace := hw.2 _ (List.mem_of_getLast? h)
    simp [isSpace] at hspace

/-- Behind a line end, a tidy line is what it was. -/
theorem contentOf_of_tidy (c : Char) {content : Text} (h : Tidy content) :
    SrsSdp.contentOf (c :: '=' :: content ++ ['\r']) = content := by
  have htrim : SrsSdp.trimEnd (c :: '=' :: content ++ ['\r']) = c :: '=' :: content := by
    unfold SrsSdp.trimEnd
    rw [List.getLast?_concat, if_pos rfl, List.dropLast_concat, List.rdropWhile_eq_self_iff]
    intro hne
    have hlast : (c :: '=' :: content).getLast? ≠ some ' ' := by
      rw [show c :: '=' :: content = [c, '='] ++ content from rfl,
        List.getLast?_append_of_ne_nil _ h.ne_nil]
      exact h.last
    rw [List.getLast?_eq_some_getLast hne] at hlast
    simpa using hlast
  rw [SrsSdp.contentOf, htrim]
  rfl

/-! ## A description -/

namespace SrsSdp

/-- The lines, each with a line end, lead from one state to the other. -/
def Reads (s : SrsSdp) (ls : List Text) (s' : SrsSdp) : Prop :=
  (∀ l ∈ ls, '\n' ∉ l) ∧ s.parseLines (ls.map (· ++ ['\r'])) = .ok s'

theorem Reads.nil (s : SrsSdp) : s.Reads [] s := ⟨nofun, rfl⟩

variable {s s' : SrsSdp}

theorem Reads.append {s'' : SrsSdp} {a b : List Text} (ha : s.Reads a s')
    (hb : s'.Reads b s'') : s.Reads (a ++ b) s'' := by
  constructor
  · intro l hl
    exact (List.mem_append.1 hl).elim (ha.1 l) (hb.1 l)
  · rw [List.map_append, parseLines_append, bind_eq_ok]
    exact ⟨s', ha.2, hb.2⟩

/-- A line is parsed without its line end. -/
theorem Reads.line {c : Char} {content : Text} (hc : c ≠ '\n')
    (htidy : Tidy content) (h : s.parseLine (c :: '=' :: content) = .ok s') :
    s.Reads [c :: '=' :: content] s' := by
  constructor
  · intro l hl
    rw [List.mem_singleton.1 hl]
    simp [Ne.symm hc, htidy.noBreak]
  · rw [List.map_singleton, parseLines_cons, bind_eq_ok]
    refine ⟨s', ?_, rfl⟩
    show s.parseLine (trimEnd (c :: '=' :: (content ++ ['\r']))) = _
    rw [trimEnd_eq]
    rw [show c :: '=' :: (content ++ ['\r']) = c :: '=' :: content ++ ['\r'] from rfl,
      contentOf_of_tidy c htidy, h]

/-- A line that is left out if its value is empty. -/
theorem Reads.optional {value line : Text} (hnil : value = [] → s = s')
    (h : value ≠ [] → s.Reads [line] s') : s.Reads (Sdp.optional value line) s' := by
  unfold Sdp.optional
  split
  · next hvalue =>
    rw [hnil hvalue]
    exact .nil s'
  · next hvalue => exact h hvalue

/-- The written text is parsed line by line, and the sources are filled in then. -/
theorem Reads.parse {ls : List Text} (h : ({} : SrsSdp).Reads ls s) :
    parse (ls.flatMap (· ++ "\r\n".toList)) =
      .ok { s with mediaDescs := s.mediaDescs.map fillMedia } := by
  have hlines : ∀ ls : List Text, (∀ l ∈ ls, '\n' ∉ l) →
      lines (ls.flatMap (· ++ "\r\n".toList)) = ls.map (· ++ ['\r']) := by
    intro ls hls
    induction ls with
    | nil => rfl
    | cons l ls ih =>
      have hl : '\n' ∉ l ++ ['\r'] := by simp [hls l List.mem_cons_self]
      rw [List.flatMap_cons, show l ++ "\r\n".toList = l ++ ['\r'] ++ ['\n'] by simp,
        List.append_assoc, List.singleton_append, lines_append hl,
        ih fun l' hl' => hls l' (List.mem_cons_of_mem _ hl')]
      rfl
  rw [SrsSdp.parse, hlines ls h.1, h.2]
  rfl

end SrsSdp

/-! ## The last media description -/

namespace SrsMediaDesc

/-- The lines lead from one media description to the other, as the last one. -/
def Reads (m : SrsMediaDesc) (ls : List Text) (m' : SrsMediaDesc) : Prop :=
  ∀ (s : SrsSdp) (done : List SrsMediaDesc), s.inMediaSession = true →
    s.mediaDescs = done ++ [m] → s.Reads ls { s with mediaDescs := done ++ [m'] }

theorem Reads.nil (m : SrsMediaDesc) : m.Reads [] m := by
  intro s done hsection hlast
  rw [← hlast]
  exact .nil s

variable {m m' : SrsMediaDesc}

theorem Reads.append {m'' : SrsMediaDesc} {a b : List Text} (ha : m.Reads a m')
    (hb : m'.Reads b m'') : m.Reads (a ++ b) m'' := by
  intro s done hsection hlast
  exact (ha s done hsection hlast).append (hb _ done hsection rfl)

theorem Reads.optional {value line : Text} (hnil : value = [] → m = m')
    (h : value ≠ [] → m.Reads [line] m') : m.Reads (Sdp.optional value line) m' := by
  intro s done hsection hlast
  apply SrsSdp.Reads.optional
  · intro hvalue
    rw [← hnil hvalue, ← hlast]
  · intro hvalue
    exact h hvalue s done hsection hlast

theorem parseMediaLine_concat {s : SrsSdp} {done : List SrsMediaDesc}
    {line : Text} (hlast : s.mediaDescs = done ++ [m]) (h : m.parseLine line = .ok m') :
    s.parseMediaLine line = .ok { s with mediaDescs := done ++ [m'] } := by
  unfold SrsSdp.parseMediaLine
  rw [hlast, List.getLast?_concat, List.dropLast_concat]
  simp [h]

theorem Reads.attribute (content : Text) (htidy : Tidy content)
    (h : m.parseAttribute content = .ok m') : m.Reads ['a' :: '=' :: content] m' := by
  intro s done hsection hlast
  apply SrsSdp.Reads.line (by decide) htidy
  show (if s.inMediaSession then s.parseMediaLine _ else _) = _
  rw [if_pos hsection]
  exact parseMediaLine_concat hlast h

/-- A line of the form `y=` stands for two lines of a source. -/
theorem Reads.source {m'' : SrsMediaDesc} {content : Text} (htidy : Tidy content)
    (hcStr : cStr content = content) (hlen : content.length < 4089)
    (hcname : m.parseAttribute ("ssrc:".toList ++ content ++ " cname:".toList ++ content) = .ok m')
    (hlabel : m'.parseAttribute ("ssrc:".toList ++ content ++ " label:gb28181".toList) = .ok m'') :
    m.Reads ["y=".toList ++ content] m'' := by
  intro s done hsection hlast
  apply SrsSdp.Reads.line (c := 'y') (by decide) htidy
  show s.parseGb28181Ssrc content = _
  have hfits : ("a=ssrc:".toList ++ content ++ " cname:".toList ++ content).length < 8192 := by
    simp only [List.length_append, show "a=ssrc:".toList.length = 7 from rfl,
      show " cname:".toList.length = 7 from rfl]
    omega
  have hfits' : ("a=ssrc:".toList ++ content ++ " label:gb28181".toList).length < 8192 := by
    simp only [List.length_append, show "a=ssrc:".toList.length = 7 from rfl,
      show " label:gb28181".toList.length = 14 from rfl]
    omega
  simp only [SrsSdp.parseGb28181Ssrc, hcStr, SrsSdp.srsFmt_of_lt hfits, SrsSdp.srsFmt_of_lt hfits',
    bind_eq_ok]
  refine ⟨_, parseMediaLine_concat hlast hcname, ?_⟩
  exact @parseMediaLine_concat m' _ _ done _ rfl hlabel

end SrsMediaDesc

/-! ## Lines that are ignored -/

/-- A line of connection data, or none. -/
def IsConnection (line : Text) : Prop :=
  line = [] ∨ ∃ content, line = 'c' :: '=' :: content ∧ '\n' ∉ content

theorem SrsSdp.Reads.connection (s : SrsSdp) {line : Text} (h : IsConnection line) :
    s.Reads (Sdp.optional line line) s := by
  apply SrsSdp.Reads.optional (fun _ => rfl)
  intro hne
  obtain ⟨content, rfl, hbreak⟩ := h.resolve_left hne
  constructor
  · intro l hl
    rw [List.mem_singleton.1 hl]
    simp [hbreak]
  · rw [List.map_singleton, parseLines_cons, bind_eq_ok]
    refine ⟨s, ?_, rfl⟩
    show s.parseLine (trimEnd ('c' :: '=' :: (content ++ ['\r']))) = _
    rw [trimEnd_eq]
    rfl

theorem SrsMediaDesc.Reads.connection (m : SrsMediaDesc) {line : Text} (h : IsConnection line) :
    m.Reads (Sdp.optional line line) m := by
  intro s done _ hlast
  rw [← hlast]
  exact SrsSdp.Reads.connection s h

/-! ## The session information -/

namespace SrsSessionInfo

/-- The attributes of a session information. -/
def attributes : List Text :=
  ["ice-ufrag".toList, "ice-pwd".toList, "ice-options".toList, "fingerprint".toList,
    "setup".toList]

/-- The lines of attributes lead from one session information to the other. -/
inductive Reads : SrsSessionInfo → List Text → SrsSessionInfo → Prop
  | nil (i : SrsSessionInfo) : Reads i [] i
  | cons {i i' i'' : SrsSessionInfo} (name : Text) {value : Text} {ls : List Text}
      (hname : name ∈ attributes) (hvalue : Tidy value)
      (h : i.parseAttribute name value = .ok i') (hrest : Reads i' ls i'') :
      Reads i (('a' :: '=' :: (name ++ ':' :: value)) :: ls) i''

variable {i i' : SrsSessionInfo}

theorem Reads.append {i'' : SrsSessionInfo} {a b : List Text} (ha : i.Reads a i')
    (hb : i'.Reads b i'') : i.Reads (a ++ b) i'' := by
  induction ha with
  | nil i => exact hb
  | cons _ hname hvalue h hrest ih => exact .cons _ hname hvalue h (ih hb)

theorem Reads.optional {value line : Text} (hnil : value = [] → i = i')
    (h : value ≠ [] → i.Reads [line] i') : i.Reads (Sdp.optional value line) i' := by
  unfold Sdp.optional
  split
  · next hvalue =>
    rw [hnil hvalue]
    exact .nil i'
  · next hvalue => exact h hvalue

variable {name : Text}

/-- What a media description does not know goes to its session information. -/
theorem media_parseAttribute (m : SrsMediaDesc) (hname : name ∈ attributes) (value : Text) :
    m.parseAttribute (name ++ ':' :: value) =
      m.sessionInfo.parseAttribute name value >>= fun info =>
        .ok { m with sessionInfo := info } := by
  simp only [attributes, List.mem_cons, List.not_mem_nil, or_false] at hname
  unfold SrsMediaDesc.parseAttribute
  rcases hname with rfl | rfl | rfl | rfl | rfl
  all_goals
    rw [SrsMediaDesc.attributeOf_append _ (by decide)]
    rfl

theorem sdp_parseAttribute (s : SrsSdp) (hname : name ∈ attributes) (value : Text) :
    s.parseAttribute (name ++ ':' :: value) =
      s.sessionInfo.parseAttribute name value >>= fun info =>
        .ok { s with sessionInfo := info } := by
  simp only [attributes, List.mem_cons, List.not_mem_nil, or_false] at hname
  unfold SrsSdp.parseAttribute
  rcases hname with rfl | rfl | rfl | rfl | rfl
  all_goals
    rw [upTo_append (by decide)]
    rfl

theorem noBreak_of_mem_attributes (hname : name ∈ attributes) : '\n' ∉ name ++ [':'] := by
  revert name
  decide

/-- The lines are read alike in a media section. -/
theorem Reads.media {m : SrsMediaDesc} {ls : List Text}
    (h : i.Reads ls i') (hm : m.sessionInfo = i) : m.Reads ls { m with sessionInfo := i' } := by
  induction h generalizing m with
  | nil i =>
    rw [← hm]
    exact .nil m
  | @cons i i₁ i₂ name value ls hname hvalue hparse hrest ih =>
    have hnext := ih (m := { m with sessionInfo := i₁ }) rfl
    refine SrsMediaDesc.Reads.append (a := [_]) (.attribute _ ?_ ?_) hnext
    · rw [← List.singleton_append, ← List.append_assoc]
      exact .append (noBreak_of_mem_attributes hname) hvalue
    · rw [media_parseAttribute m hname, hm, hparse]
      rfl

/-- The lines are read alike in front of the media sections. -/
theorem Reads.sdp {s : SrsSdp} {ls : List Text} (h : i.Reads ls i')
    (hs : s.sessionInfo = i) (hsection : s.inMediaSession = false) :
    s.Reads ls { s with sessionInfo := i' } := by
  induction h generalizing s with
  | nil i =>
    rw [← hs]
    exact .nil s
  | @cons i i₁ i₂ name value ls hname hvalue hparse hrest ih =>
    have hnext := ih (s := { s with sessionInfo := i₁ }) rfl hsection
    refine SrsSdp.Reads.append (a := [_]) (.line (by decide) ?_ ?_) hnext
    · rw [← List.singleton_append, ← List.append_assoc]
      exact .append (noBreak_of_mem_attributes hname) hvalue
    · show (if s.inMediaSession then _ else s.parseAttribute _) = _
      rw [if_neg (by simp [hsection]), sdp_parseAttribute s hname, hs, hparse]
      rfl

end SrsSessionInfo

end SrsChatRoom.App.Sdp
