import Mathlib.Data.List.DropRight
import SrsChatRoom.Protocol.HttpUri

/-!
# Static files over HTTP (`srs_protocol_http_stack.cpp`)

The path of a request is mapped to a file: the virtual directory of the pattern is cut off, and
what remains is put behind the root directory. How much is cut off is the length of the pattern
without the vhost, but whether it is cut off at all depends on the length with the vhost.
`fullpath_iff` says for which paths the file is the one that is meant.
-/

namespace SrsChatRoom.Protocol.HttpFile

open TextStream (Text)
open HttpUri (SrsHttpUri srsHttpUriInitialize parsingUrl)

/-! ## Code -/

/-- `SRS_HTTP_DEFAULT_PAGE` -/
def srsHttpDefaultPage : Text := "index.html".toList

/-- `srs_string_trim_end`, of one character. -/
def srsStringTrimEnd (str : Text) (ch : Char) : Text := str.rdropWhile (· = ch)

/-- `srs_string_starts_with` -/
def srsStringStartsWith (str flag : Text) : Bool := decide (flag <+: str)

/-- `srs_string_ends_with` -/
def srsStringEndsWith (str flag : Text) : Bool := decide (flag <:+ str)

/-- The default page is added to a directory. -/
def addDefaultPage (upath : Text) : Text :=
  if srsStringEndsWith upath ['/'] then upath ++ srsHttpDefaultPage else upath

/-- What remains of the path: `pattern.find("/")` is the length of the vhost. -/
def filenameOf (pattern upath : Text) : Text :=
  if upath.length > pattern.length ∧ '/' ∈ pattern then
    upath.drop (pattern.length - pattern.idxOf '/')
  else upath

/-- `srs_http_fs_fullpath(dir, pattern, upath)` -/
def srsHttpFsFullpath (dir pattern upath : Text) : Text :=
  let filename := filenameOf pattern (addDefaultPage upath)
  let fullpath := srsStringTrimEnd dir '/'
  if srsStringStartsWith filename ['/'] then fullpath ++ filename
  else fullpath ++ '/' :: filename

/-! ## Virtual directories -/

/-- The pattern of a virtual directory. -/
structure Mount where
  vhost : Text
  name : Text
  /-- with a slash at the end -/
  slash : Bool
  vhost_chars : '/' ∉ vhost
  name_ne : name ≠ []
  name_end : name.getLast? ≠ some '/'

/-- `[vhost]/name` or `[vhost]/name/` -/
def Mount.pattern (m : Mount) : Text :=
  m.vhost ++ '/' :: (m.name ++ if m.slash then ['/'] else [])

/-- A path under a virtual directory. -/
structure PathUnder (m : Mount) where
  rest : Text
  rest_head : ∀ c ∈ rest.head?, c = '/'

def PathUnder.text {m : Mount} (p : PathUnder m) : Text := '/' :: (m.name ++ p.rest)

/-- The file that is meant: what is behind the virtual directory, behind the root directory. -/
def fileOf (dir : Text) {m : Mount} (p : PathUnder m) : Text :=
  srsStringTrimEnd dir '/' ++ '/' :: (addDefaultPage p.rest).drop 1

/-- A file is under a directory. -/
def Under (root file : Text) : Prop := ∃ name, file = root ++ '/' :: name ∧ ¬['.', '.'] <:+: name

/-- The file of a request is under the root directory, unless `..` is in its URL. -/
def StaysUnder (dir : Text) (m : Mount) (p : PathUnder m) : Prop :=
  ∀ url uri, srsHttpUriInitialize url = some uri → uri.path = p.text → ¬['.', '.'] <:+: url →
    Under (srsStringTrimEnd dir '/') (srsHttpFsFullpath dir m.pattern p.text)

def MapsExactly (dir : Text) (m : Mount) (p : PathUnder m) : Prop :=
  srsHttpFsFullpath dir m.pattern p.text = fileOf dir p ∧ StaysUnder dir m p

/-- The path is longer than the pattern with its vhost, and there is one slash behind the virtual
directory if the pattern ends with it. -/
def IsCut (m : Mount) (p : PathUnder m) : Prop :=
  m.pattern.length < (addDefaultPage p.text).length ∧
    (m.slash = true → ¬['/', '/'] <+: addDefaultPage p.rest)

/-! ## The path and the pattern -/

theorem srsStringEndsWith_iff (s : Text) (c : Char) :
    srsStringEndsWith s [c] = true ↔ s.getLast? = some c := by
  rw [srsStringEndsWith, decide_eq_true_iff]
  constructor
  · intro ⟨a, hs⟩
    rw [← hs, List.getLast?_concat]
  · intro hlast
    obtain ⟨a, ha⟩ := List.getLast?_eq_some_iff.mp hlast
    exact ⟨a, ha.symm⟩

section Mount

variable {m : Mount}

theorem idxOf_pattern (m : Mount) : m.pattern.idxOf '/' = m.vhost.length := by
  rw [Mount.pattern, List.idxOf_append_of_notMem m.vhost_chars, List.idxOf_cons_self]
  omega

theorem length_pattern (m : Mount) :
    m.pattern.length = m.vhost.length + (m.name.length + 1 + if m.slash then 1 else 0) := by
  have hlength : (if m.slash then (['/'] : Text) else []).length = if m.slash then 1 else 0 := by
    split <;> rfl
  rw [Mount.pattern, List.length_append, List.length_cons, List.length_append, hlength]
  omega

/-- The default page goes to the rest of the path. -/
theorem addDefaultPage_text (p : PathUnder m) :
    addDefaultPage p.text = '/' :: (m.name ++ addDefaultPage p.rest) := by
  have hends : srsStringEndsWith p.text ['/'] = srsStringEndsWith p.rest ['/'] := by
    rw [Bool.eq_iff_iff, srsStringEndsWith_iff, srsStringEndsWith_iff]
    have htext : p.text.getLast? = (m.name ++ p.rest).getLast? := by
      rw [PathUnder.text, List.getLast?_cons_of_ne_nil]
      exact List.append_ne_nil_of_left_ne_nil m.name_ne _
    rw [htext]
    by_cases hrest : p.rest = []
    · rw [hrest, List.append_nil]
      exact iff_of_false m.name_end (by simp)
    · rw [List.getLast?_append_of_ne_nil _ hrest]
  rw [addDefaultPage, addDefaultPage, hends]
  split
  · show '/' :: (m.name ++ p.rest ++ srsHttpDefaultPage) = _
    rw [List.append_assoc]
  · rfl

/-- With the default page or without it, the rest is empty or begins with a slash. -/
theorem addDefaultPage_rest (p : PathUnder m) :
    addDefaultPage p.rest = [] ∨ ∃ name, addDefaultPage p.rest = '/' :: name := by
  have hhead := p.rest_head
  cases hrest : p.rest with
  | nil => exact .inl rfl
  | cons c rest =>
    rw [hrest] at hhead
    rw [hhead c rfl, addDefaultPage]
    split
    · exact .inr ⟨rest ++ srsHttpDefaultPage, rfl⟩
    · exact .inr ⟨rest, rfl⟩

/-- A short path is not cut. -/
theorem filenameOf_short {p : PathUnder m}
    (h : ¬m.pattern.length < (addDefaultPage p.text).length) :
    filenameOf m.pattern (addDefaultPage p.text) = '/' :: (m.name ++ addDefaultPage p.rest) := by
  rw [filenameOf, if_neg fun hcut => h hcut.1]
  exact addDefaultPage_text p

/-- A longer one is cut behind the virtual directory, and behind its slash if it has one. -/
theorem filenameOf_long {p : PathUnder m}
    (h : m.pattern.length < (addDefaultPage p.text).length) :
    filenameOf m.pattern (addDefaultPage p.text) =
      (addDefaultPage p.rest).drop (if m.slash then 1 else 0) := by
  have hmem : '/' ∈ m.pattern := by simp [Mount.pattern]
  have hcount : m.pattern.length - m.pattern.idxOf '/' =
      m.name.length + 1 + if m.slash then 1 else 0 := by
    rw [idxOf_pattern, length_pattern]
    omega
  have htext : addDefaultPage p.text = ('/' :: m.name) ++ addDefaultPage p.rest :=
    addDefaultPage_text p
  have hfront : m.name.length + 1 = ('/' :: m.name).length := rfl
  rw [filenameOf, if_pos ⟨h, hmem⟩, hcount, htext, hfront, List.drop_length_add_append]

end Mount

/-! ## The file -/

theorem starts_cons (name : Text) : srsStringStartsWith ('/' :: name) ['/'] = true :=
  decide_eq_true ⟨name, rfl⟩

section File

variable {m : Mount}

/-- A file name gets a slash in front if it has none. -/
theorem srsHttpFsFullpath_eq (dir pattern upath : Text) :
    srsHttpFsFullpath dir pattern upath = srsStringTrimEnd dir '/' ++
      (if srsStringStartsWith (filenameOf pattern (addDefaultPage upath)) ['/'] then []
        else ['/']) ++ filenameOf pattern (addDefaultPage upath) := by
  unfold srsHttpFsFullpath
  dsimp only
  split
  · rw [List.append_nil]
  · rw [List.append_assoc]
    rfl

/-- The virtual directory stays in a path that is not cut. -/
theorem fullpath_short {p : PathUnder m} (dir : Text)
    (h : ¬m.pattern.length < (addDefaultPage p.text).length) :
    srsHttpFsFullpath dir m.pattern p.text ≠ fileOf dir p := by
  intro heq
  rw [srsHttpFsFullpath_eq, filenameOf_short h, if_pos (starts_cons _), List.append_nil,
    fileOf] at heq
  have hnames := List.cons.inj (List.append_cancel_left heq)
  have hlength := congrArg List.length hnames.2
  rw [List.length_append, List.length_drop] at hlength
  have hname := List.length_pos_of_ne_nil m.name_ne
  omega

/-- A path that is cut gives the file that is meant, but for a second slash. -/
theorem fullpath_long {p : PathUnder m} (dir : Text)
    (h : m.pattern.length < (addDefaultPage p.text).length) :
    srsHttpFsFullpath dir m.pattern p.text = fileOf dir p ↔
      (m.slash = true → ¬['/', '/'] <+: addDefaultPage p.rest) := by
  have hlong := h
  rw [length_pattern, addDefaultPage_text, List.length_cons, List.length_append] at hlong
  rw [srsHttpFsFullpath_eq, filenameOf_long h, fileOf]
  obtain hnil | ⟨name, hname⟩ := addDefaultPage_rest p
  · -- there is nothing behind the virtual directory, so the path is not longer
    rw [hnil, List.length_nil] at hlong
    omega
  · rw [hname]
    cases hslash : m.slash with
    | false =>
      apply iff_of_true
      · show _ ++ (if srsStringStartsWith ('/' :: name) ['/'] then [] else ['/']) ++ '/' :: name = _
        rw [if_pos (starts_cons _), List.append_nil]
        rfl
      · exact fun h => nomatch h
    | true =>
      have hboth : ['/', '/'] <+: '/' :: name ↔ ['/'] <+: name :=
        ⟨fun h => (List.cons_prefix_cons.mp h).2, fun h => List.cons_prefix_cons.mpr ⟨rfl, h⟩⟩
      show _ ++ (if srsStringStartsWith name ['/'] then [] else ['/']) ++ name =
        _ ++ '/' :: name ↔ _
      by_cases hstart : ['/'] <+: name
      · apply iff_of_false
        · have hstarts : srsStringStartsWith name ['/'] = true := decide_eq_true hstart
          rw [if_pos hstarts, List.append_nil]
          intro heq
          have hlength := congrArg List.length (List.append_cancel_left heq)
          rw [List.length_cons] at hlength
          omega
        · exact fun hnot => hnot rfl (hboth.mpr hstart)
      · apply iff_of_true
        · have hstarts : ¬srsStringStartsWith name ['/'] = true :=
            fun h => hstart (of_decide_eq_true h)
          rw [if_neg hstarts, List.append_assoc]
          rfl
        · exact fun _ hslashes => hstart (hboth.mp hslashes)

end File

/-! ## Under the root directory -/

/-- Dots do not stand next to each other. -/
def NoDots (s : Text) : Prop := s.IsChain fun a b => ¬(a = '.' ∧ b = '.')

theorem noDots_iff (s : Text) : NoDots s ↔ ¬['.', '.'] <:+: s := SubText.isChain_iff_not_infix

theorem noDots_of_part {a b : Text} (h : NoDots b) (hpart : a <:+: b) : NoDots a := by
  rw [noDots_iff] at h ⊢
  exact fun hdots => h (hdots.trans hpart)

/-- The URL that is parsed has no more dots in a row than the one that is given. -/
theorem noDots_parsingUrl {url : Text} (h : NoDots url) : NoDots (parsingUrl url) := by
  unfold parsingUrl
  split
  · have hsafe : NoDots HttpUri.safeHost := by
      rw [noDots_iff]
      decide
    have hfirst : '.' ∉ HttpUri.safeHost.head? := by decide
    have hlast : '.' ∉ HttpUri.safeHost.getLast? := by decide
    exact SubText.isChain_replaceFrom (by decide) hsafe (fun _ b hb heq => hfirst (heq.2 ▸ hb))
      (fun a ha _ heq => hlast (heq.1 ▸ ha)) 0 h
  · exact h

theorem noDots_path {url : Text} {uri : SrsHttpUri} (huri : srsHttpUriInitialize url = some uri)
    (h : NoDots url) : NoDots uri.path := by
  unfold srsHttpUriInitialize at huri
  split at huri
  · cases huri
  · rename_i fieldData hparsed
    cases huri
    show NoDots (HttpUri.getUriField (parsingUrl url) fieldData .path)
    unfold HttpUri.getUriField
    split
    · exact List.isChain_nil
    · apply noDots_of_part (noDots_parsingUrl h)
      exact (List.take_prefix _ _).isInfix.trans (List.drop_suffix _ _).isInfix

theorem noDots_addDefaultPage {upath : Text} (h : NoDots upath) :
    NoDots (addDefaultPage upath) := by
  have hpage : NoDots srsHttpDefaultPage := by
    rw [noDots_iff]
    decide
  have hfirst : '.' ∉ srsHttpDefaultPage.head? := by decide
  unfold addDefaultPage
  split
  · exact List.isChain_append.mpr ⟨h, hpage, fun _ _ b hb heq => hfirst (heq.2 ▸ hb)⟩
  · exact h

/-- Whatever is cut, the file is under the root directory. -/
theorem under_fullpath (dir pattern : Text) {upath : Text} (h : NoDots upath) :
    Under (srsStringTrimEnd dir '/') (srsHttpFsFullpath dir pattern upath) := by
  have hfile : NoDots (filenameOf pattern (addDefaultPage upath)) := by
    unfold filenameOf
    split
    · exact noDots_of_part (noDots_addDefaultPage h) (List.drop_suffix _ _).isInfix
    · exact noDots_addDefaultPage h
  rw [srsHttpFsFullpath_eq]
  generalize filenameOf pattern (addDefaultPage upath) = filename at hfile
  by_cases hstart : srsStringStartsWith filename ['/'] = true
  · obtain ⟨name, rfl⟩ := of_decide_eq_true hstart
    refine ⟨name, ?_, (noDots_iff name).mp (List.isChain_cons.mp hfile).2⟩
    rw [if_pos hstart, List.append_nil]
    rfl
  · refine ⟨filename, ?_, (noDots_iff filename).mp hfile⟩
    rw [if_neg hstart, List.append_assoc]
    rfl

/-- The file is the one that is meant, and under the root directory, if the path is longer than the
pattern with its vhost and has no second slash behind the one of the pattern. -/
theorem fullpath_iff (dir : Text) (m : Mount) (p : PathUnder m) :
    MapsExactly dir m p ↔ IsCut m p := by
  have hunder : StaysUnder dir m p := by
    intro url uri huri hpath hurl
    apply under_fullpath
    rw [← hpath]
    exact noDots_path huri ((noDots_iff url).mpr hurl)
  rw [MapsExactly, and_iff_left hunder]
  by_cases hlong : m.pattern.length < (addDefaultPage p.text).length
  · rw [fullpath_long dir hlong, IsCut, and_iff_right hlong]
  · exact iff_of_false (fullpath_short dir hlong) fun hcut => hlong hcut.1

/-- `ossrs.net/api/` -/
def apiMount : Mount where
  vhost := "ossrs.net".toList
  name := "api".toList
  slash := true
  vhost_chars := by decide
  name_ne := by decide
  name_end := by decide

/-- `/api/a.ts` -/
def shortPath : PathUnder apiMount := ⟨"/a.ts".toList, fun _ hc => (Option.some.inj hc).symm⟩

/-- It is mapped to `/tmp/api/a.ts` in place of `/tmp/a.ts`. -/
theorem shortPath_not_cut : ¬MapsExactly "/tmp/".toList apiMount shortPath :=
  fun h => fullpath_short _ (by decide) h.1

end SrsChatRoom.Protocol.HttpFile
