import SrsChatRoom.Lib.Dict
import SrsChatRoom.Lib.TextStream

/-!
# HTTP header lines (`srs_protocol_http_conn.cpp`)

`SrsHttpParser` feeds what it reads to `http_parser`, which calls back with pieces of the names and
the values of the header lines. The parser collects the pieces, and takes a piece of a name for the
begin of the next line if there is a value already. A line with an empty value is therefore not
ended: its name goes in front of the next name.

* `collected` - the names and values that come out of a list of lines;
* `foldl_call_lines` - the callbacks of the lines give just these;
* `header_exact_iff` - the header is the one that was sent if there is nothing behind an empty value
  but empty values.
-/

namespace SrsChatRoom.Protocol.HttpHeader

open TextStream (Text)
open List (foldl_append foldl_cons map_cons mem_cons mem_cons_self)

/-! ## Code -/

/-- The loop of `SrsHttpHeader::set`; `upper` says that a word begins. -/
def upperCamelCase (upper : Bool) : Text → Text
  | [] => []
  | ch :: key =>
    (if upper ∧ 'a' ≤ ch ∧ ch ≤ 'z' then Char.ofNat (ch.toNat - 32) else ch) ::
      upperCamelCase (ch = '-') key

/-- `SrsHttpHeader`: `headers`, in the order of `keys_`. -/
structure SrsHttpHeader where
  headers : Dict Text Text

/-- `SrsHttpHeader::set` -/
def SrsHttpHeader.set (h : SrsHttpHeader) (key value : Text) : SrsHttpHeader :=
  ⟨h.headers.set (upperCamelCase true key) value⟩

/-- `SrsHttpParseState` -/
inductive SrsHttpParseState
  | init | start | headerComplete | body | messageComplete
deriving DecidableEq

/-- `state >= SrsHttpParseStateHeaderComplete` -/
def SrsHttpParseState.isHeaderComplete : SrsHttpParseState → Bool
  | init => false
  | start => false
  | headerComplete => true
  | body => true
  | messageComplete => true

/-- `SrsHttpParser`, as far as its callbacks write it. -/
structure SrsHttpParser where
  state : SrsHttpParseState
  fieldName : Text
  fieldValue : Text
  url : Text
  header : SrsHttpHeader

/-- What `http_parser` calls. -/
inductive Callback
  | messageBegin
  | url (piece : Text)
  | headerField (piece : Text)
  | headerValue (piece : Text)
  | headersComplete
  | body (piece : Text)
  | messageComplete

namespace SrsHttpParser

/-- The parser as `parse_message` resets it. -/
def new : SrsHttpParser := ⟨.init, [], [], [], ⟨.empty⟩⟩

/-- A name whose value has come is entered. -/
def endField (obj : SrsHttpParser) : SrsHttpParser :=
  if obj.fieldValue ≠ [] then
    { obj with
      header := obj.header.set obj.fieldName obj.fieldValue, fieldName := [], fieldValue := [] }
  else obj

/-- `on_header_field` -/
def onHeaderField (obj : SrsHttpParser) (piece : Text) : SrsHttpParser :=
  let obj := obj.endField
  { obj with fieldName := obj.fieldName ++ piece }

/-- `on_header_value` -/
def onHeaderValue (obj : SrsHttpParser) (piece : Text) : SrsHttpParser :=
  { obj with fieldValue := obj.fieldValue ++ piece }

/-- All callbacks. -/
def call (obj : SrsHttpParser) : Callback → SrsHttpParser
  | .messageBegin => { obj with state := .start }
  | .url piece => { obj with url := obj.url ++ piece }
  | .headerField piece => obj.onHeaderField piece
  | .headerValue piece => obj.onHeaderValue piece
  | .headersComplete => { obj with state := .headerComplete }
  | .body _ => { obj with state := .body }
  | .messageComplete => { obj with state := .messageComplete }

end SrsHttpParser

/-- What a call of `http_parser_execute` leaves: the state of `http_parser`, the callbacks it has
made, how many bytes it has consumed, and whether the code is `HPE_OK`. -/
structure Execution (σ : Type) where
  parser : σ
  callbacks : List Callback
  consumed : ℕ
  ok : Bool

variable {σ : Type}

/-- `parse_message_imp`, where `http_parser_execute` is given. The reader has some more reads, of
one byte at least each; an error is `none`. -/
def parseMessageImp (execute : σ → Text → Execution σ) :
    σ → SrsHttpParser → Text → List Text → Option (SrsHttpParser × Text)
  | parser, obj, buffer, reads =>
    let e := execute parser buffer
    let obj' := e.callbacks.foldl SrsHttpParser.call obj
    if buffer ≠ [] ∧ e.ok = false then none
    else if buffer ≠ [] ∧ obj'.state.isHeaderComplete then
      -- the last name is entered, and stays where it is
      some (if obj'.fieldValue ≠ [] then
          { obj' with header := obj'.header.set obj'.fieldName obj'.fieldValue } else obj',
        buffer.drop e.consumed)
    else match reads with
      | [] => none
      | read :: reads =>
        if buffer ≠ [] then
          parseMessageImp execute e.parser obj' (buffer.drop e.consumed ++ read) reads
        else parseMessageImp execute parser obj read reads

/-- `parse_message`, up to the header, and what is left in the buffer. -/
def parseMessage (execute : σ → Text → Execution σ) (parser : σ) (buffer : Text)
    (reads : List Text) : Option (SrsHttpHeader × Text) :=
  (parseMessageImp execute parser .new buffer reads).map fun r => (r.1.header, r.2)

/-! ## What `http_parser` does -/

/-- The callback comes before the end of the header. -/
def Callback.inHeader : Callback → Bool
  | .messageBegin => true
  | .url _ => true
  | .headerField _ => true
  | .headerValue _ => true
  | .headersComplete => false
  | .body _ => false
  | .messageComplete => false

/-- Over the reads, `http_parser` consumes all it gets and makes the callbacks `cs`; then the header
is complete. -/
inductive Calls (execute : σ → Text → Execution σ) :
    σ → Text → List Text → List Callback → Prop
  | wait {s : σ} {read : Text} {reads : List Text} {cs : List Callback} :
      Calls execute s read reads cs → Calls execute s [] (read :: reads) cs
  | more {s : σ} {buffer read : Text} {reads : List Text} {cs : List Callback} :
      buffer ≠ [] → (execute s buffer).ok = true →
      (execute s buffer).consumed = buffer.length →
      (∀ c ∈ (execute s buffer).callbacks, c.inHeader = true) →
      Calls execute (execute s buffer).parser read reads cs →
      Calls execute s buffer (read :: reads) ((execute s buffer).callbacks ++ cs)
  | complete {s : σ} {buffer : Text} {reads : List Text} {cs : List Callback} :
      buffer ≠ [] → (execute s buffer).ok = true →
      (execute s buffer).callbacks = cs ++ [.headersComplete, .messageComplete] →
      Calls execute s buffer reads cs

/-- The callbacks of a header line: pieces of the name, then pieces of the value. -/
inductive LineCalls : Text × Text → List Callback → Prop
  | line (names values : List Text) :
      LineCalls (names.flatten, values.flatten)
        (names.map .headerField ++ values.map .headerValue)

/-- The callbacks of a message, up to the end of the header. -/
inductive HeadCalls : List (Text × Text) → List Callback → Prop
  | head {lines : List (Text × Text)} {css : List (List Callback)} (urls : List Text) :
      List.Forall₂ LineCalls lines css →
      HeadCalls lines (.messageBegin :: urls.map .url ++ css.flatten)

/-- The header lines of a message: names and values. The names are not empty, and no name is there
twice, in the spelling that `set` gives them. -/
structure HeaderLines where
  lines : List (Text × Text)
  name_ne_nil : ∀ l ∈ lines, l.1 ≠ []
  distinct : (lines.map fun l => upperCamelCase true l.1).Nodup

/-- The header has each name with its own value, where that is not empty, and nothing else. -/
def Exact (h : SrsHttpHeader) (lines : List (Text × Text)) : Prop :=
  ∀ k v, h.headers.get? k = some v ↔
    v ≠ [] ∧ ∃ name, (name, v) ∈ lines ∧ upperCamelCase true name = k

/-- Behind an empty value there are only empty values. -/
def EmptyLast (lines : List (Text × Text)) : Prop :=
  lines.Pairwise fun l l' => l.2 = [] → l'.2 = []

/-! ## The callbacks of the lines -/

/-- The names and values that come out of the lines, where `name` is left over from the lines in
front. -/
def collected (name : Text) : List (Text × Text) → List (Text × Text)
  | [] => []
  | l :: lines =>
    if l.2 = [] then collected (name ++ l.1) lines else (name ++ l.1, l.2) :: collected [] lines

namespace SrsHttpParser

theorem fieldValue_endField (obj : SrsHttpParser) : obj.endField.fieldValue = [] := by
  unfold endField
  split
  · rfl
  · rename_i h
    exact not_not.mp h

variable {obj : SrsHttpParser}

theorem endField_of_nil (h : obj.fieldValue = []) : obj.endField = obj := by
  rw [endField, if_neg (not_not.mpr h)]

theorem endField_endField (obj : SrsHttpParser) : obj.endField.endField = obj.endField :=
  endField_of_nil obj.fieldValue_endField

/-- All pieces of a name but the first find no value. -/
theorem foldl_call_names (names : List Text) (h : obj.fieldValue = []) :
    (names.map .headerField).foldl call obj =
      { obj with fieldName := obj.fieldName ++ names.flatten } := by
  induction names generalizing obj with
  | nil => simp
  | cons piece names ih =>
    have hpiece : obj.call (.headerField piece) =
        { obj with fieldName := obj.fieldName ++ piece } := by
      rw [call, onHeaderField, endField_of_nil h]
    have hrest := @ih { obj with fieldName := obj.fieldName ++ piece } h
    rw [map_cons, foldl_cons, hpiece, hrest]
    simp [List.append_assoc]

theorem foldl_call_values (values : List Text) (obj : SrsHttpParser) :
    (values.map .headerValue).foldl call obj =
      { obj with fieldValue := obj.fieldValue ++ values.flatten } := by
  induction values generalizing obj with
  | nil => simp
  | cons piece values ih =>
    rw [map_cons, foldl_cons, ih]
    simp [call, onHeaderValue, List.append_assoc]

/-- One header line: the line in front is entered, if it has a value, and the line is begun. -/
theorem foldl_call_line {l : Text × Text} {cs : List Callback}
    (h : LineCalls l cs) (hname : l.1 ≠ []) :
    cs.foldl call obj =
      { obj.endField with fieldName := obj.endField.fieldName ++ l.1, fieldValue := l.2 } := by
  cases h with
  | line names values =>
    cases names with
    | nil => exact absurd rfl hname
    | cons piece names =>
      have hfirst : obj.call (.headerField piece) = obj.endField.call (.headerField piece) := by
        rw [call, call, onHeaderField, onHeaderField, endField_endField]
      rw [map_cons, List.cons_append, foldl_cons, hfirst, ← foldl_cons,
        ← List.cons_append, ← map_cons, foldl_append,
        foldl_call_names _ obj.fieldValue_endField, foldl_call_values]
      simp [fieldValue_endField]

/-- All header lines. -/
theorem foldl_call_lines {lines : List (Text × Text)}
    {css : List (List Callback)} (h : List.Forall₂ LineCalls lines css)
    (hname : ∀ l ∈ lines, l.1 ≠ []) :
    (css.flatten.foldl call obj).endField.header =
      (collected obj.endField.fieldName lines).foldl (fun h l => h.set l.1 l.2)
        obj.endField.header := by
  induction h generalizing obj with
  | nil => rfl
  | @cons l cs lines css hline _ ih =>
    rw [List.flatten_cons, foldl_append, foldl_call_line hline (hname l mem_cons_self),
      ih fun l' hl' => hname l' (List.mem_cons_of_mem l hl'), collected]
    by_cases hvalue : l.2 = []
    · rw [if_pos hvalue, endField_of_nil hvalue]
    · rw [if_neg hvalue, foldl_cons, endField, if_pos hvalue]

end SrsHttpParser

/-! ## The reads -/

variable {cs : List Callback}

theorem inHeader_foldl_call (h : ∀ c ∈ cs, c.inHeader = true)
    {obj : SrsHttpParser} (hobj : obj.state.isHeaderComplete = false) :
    (cs.foldl SrsHttpParser.call obj).state.isHeaderComplete = false := by
  induction cs generalizing obj with
  | nil => exact hobj
  | cons c cs ih =>
    apply ih fun d hd => h d (List.mem_cons_of_mem c hd)
    have hc := h c mem_cons_self
    cases c with
    | messageBegin => rfl
    | url piece => exact hobj
    | headerField piece =>
      rw [SrsHttpParser.call, SrsHttpParser.onHeaderField, SrsHttpParser.endField]
      split
      · exact hobj
      · exact hobj
    | headerValue piece => exact hobj
    | headersComplete => cases hc
    | body piece => cases hc
    | messageComplete => cases hc

/-- The parse is the callbacks, one after another, and then the last line is entered. -/
theorem parseMessageImp_of_calls {execute : σ → Text → Execution σ} {s : σ} {buffer : Text}
    {reads : List Text} (h : Calls execute s buffer reads cs)
    {obj : SrsHttpParser} (hobj : obj.state.isHeaderComplete = false) :
    ∃ obj' rest, parseMessageImp execute s obj buffer reads = some (obj', rest) ∧
      obj'.header = (cs.foldl SrsHttpParser.call obj).endField.header := by
  induction h generalizing obj with
  | wait _ ih =>
    obtain ⟨obj', rest, hparse, hheader⟩ := ih hobj
    refine ⟨obj', rest, ?_, hheader⟩
    rw [parseMessageImp]
    simpa using hparse
  | @more s buffer read reads cs hbuffer hok hconsumed hcallbacks _ ih =>
    have hstate := inHeader_foldl_call hcallbacks hobj
    obtain ⟨obj', rest, hparse, hheader⟩ := ih hstate
    refine ⟨obj', rest, ?_, by rw [foldl_append, hheader]⟩
    rw [parseMessageImp]
    simpa [hbuffer, hok, hstate, hconsumed] using hparse
  | @complete s buffer reads cs hbuffer hok hcallbacks =>
    rw [parseMessageImp.eq_def]
    simp only [hcallbacks, hok, foldl_append, foldl_cons, List.foldl_nil,
      SrsHttpParser.call, SrsHttpParseState.isHeaderComplete]
    rw [if_neg (by simp), if_pos ⟨hbuffer, trivial⟩]
    refine ⟨_, _, rfl, ?_⟩
    rw [SrsHttpParser.endField]
    split
    · rfl
    · rfl

theorem foldl_call_urls (urls : List Text) (obj : SrsHttpParser) :
    (urls.map .url).foldl SrsHttpParser.call obj = { obj with url := obj.url ++ urls.flatten } := by
  induction urls generalizing obj with
  | nil => simp
  | cons piece urls ih =>
    rw [map_cons, foldl_cons, ih]
    simp [SrsHttpParser.call, List.append_assoc]

/-- The header that the parse of a message gives. -/
theorem parseMessage_of_calls {execute : σ → Text → Execution σ} {s : σ} {buffer : Text}
    {reads : List Text} {lines : List (Text × Text)}
    (hname : ∀ l ∈ lines, l.1 ≠ []) (hcalls : Calls execute s buffer reads cs)
    (hhead : HeadCalls lines cs) :
    ∃ rest, parseMessage execute s buffer reads =
      some ((collected [] lines).foldl (fun h l => h.set l.1 l.2) ⟨.empty⟩, rest) := by
  have hstate : SrsHttpParser.new.state.isHeaderComplete = false := rfl
  obtain ⟨obj', rest, hparse, hheader⟩ := parseMessageImp_of_calls hcalls hstate
  cases hhead with
  | @head css urls hlines =>
    rw [foldl_append, foldl_cons, foldl_call_urls,
      SrsHttpParser.foldl_call_lines hlines hname] at hheader
    refine ⟨rest, ?_⟩
    rw [parseMessage, hparse, Option.map_some, hheader]
    rfl

/-! ## The header -/

/-- The name as a key of the header. -/
def key (l : Text × Text) : Text := upperCamelCase true l.1

theorem length_upperCamelCase (upper : Bool) (name : Text) :
    (upperCamelCase upper name).length = name.length := by
  induction name generalizing upper with
  | nil => rfl
  | cons ch name ih => rw [upperCamelCase, List.length_cons, ih, List.length_cons]

theorem mem_keys_foldl_set (l : List (Text × Text)) (h : SrsHttpHeader) (k : Text) :
    k ∈ (l.foldl (fun h l => h.set l.1 l.2) h).headers.keys ↔
      k ∈ l.map key ∨ k ∈ h.headers.keys := by
  induction l generalizing h with
  | nil => simp
  | cons x l ih =>
    rw [foldl_cons, ih, SrsHttpHeader.set, Dict.mem_keys_set, map_cons, mem_cons]
    rw [key]
    tauto

theorem get?_foldl_set {l : List (Text × Text)} (hl : (l.map key).Nodup) (h : SrsHttpHeader)
    (k v : Text) :
    (l.foldl (fun h l => h.set l.1 l.2) h).headers.get? k = some v ↔
      (∃ x ∈ l, key x = k ∧ x.2 = v) ∨ k ∉ l.map key ∧ h.headers.get? k = some v := by
  induction l generalizing h with
  | nil => simp
  | cons x l ih =>
    rw [map_cons, List.nodup_cons] at hl
    rw [foldl_cons, ih hl.2, SrsHttpHeader.set, Dict.get?_set, map_cons]
    change _ ∨ _ ∧ (if key x = k then _ else _) = _ ↔ _
    by_cases hk : key x = k
    · subst hk
      have hother : ∀ y ∈ l, key y ≠ key x := by
        intro y hy heq
        exact hl.1 (List.mem_map.mpr ⟨y, hy, heq⟩)
      simp only [if_pos, Option.some.injEq, mem_cons, exists_eq_or_imp, true_and,
        not_true_eq_false, false_and, or_false, hl.1, not_false_eq_true]
      constructor
      · rintro (⟨y, hy, heq, _⟩ | heq)
        · exact absurd heq (hother y hy)
        · exact .inl heq
      · rintro (heq | ⟨y, hy, heq, _⟩)
        · exact .inr heq
        · exact absurd heq (hother y hy)
    · simp [hk, Ne.symm hk]

/-- The lines that have a value. -/
def withValue (lines : List (Text × Text)) : List (Text × Text) := lines.filter fun l => l.2 ≠ []

theorem length_collected (name : Text) (lines : List (Text × Text)) :
    (collected name lines).length = (withValue lines).length := by
  induction lines generalizing name with
  | nil => rfl
  | cons l lines ih =>
    by_cases hvalue : l.2 = []
    · simpa [collected, withValue, hvalue] using ih (name ++ l.1)
    · simpa [collected, withValue, hvalue] using ih []

theorem collected_of_empty {lines : List (Text × Text)} (h : ∀ l ∈ lines, l.2 = []) (name : Text) :
    collected name lines = [] := by
  induction lines generalizing name with
  | nil => rfl
  | cons l lines ih =>
    rw [collected, if_pos (h l mem_cons_self)]
    exact ih (fun l' hl' => h l' (List.mem_cons_of_mem l hl')) _

/-- With the empty values at the end, each value comes out under its own name. -/
theorem collected_of_emptyLast {lines : List (Text × Text)} (h : EmptyLast lines) :
    collected [] lines = withValue lines := by
  induction lines with
  | nil => rfl
  | cons l lines ih =>
    obtain ⟨hl, hlines⟩ := List.pairwise_cons.mp h
    by_cases hvalue : l.2 = []
    · have hempty : ∀ l' ∈ lines, l'.2 = [] := fun l' hl' => hl l' hl' hvalue
      rw [collected, if_pos hvalue, collected_of_empty hempty, withValue, eq_comm,
        List.filter_eq_nil_iff]
      simpa [hvalue] using fun a b hab => hempty (a, b) hab
    · rw [collected, if_neg hvalue, ih hlines]
      simp [withValue, hvalue]

/-- All names together. -/
def total (l : List (Text × Text)) : ℕ := (l.map fun l => l.1.length).sum

/-- The names that come out are as long as the own names of the values only if no empty value stands
in front of a value. -/
theorem emptyLast_of_total {lines : List (Text × Text)} (hname : ∀ l ∈ lines, l.1 ≠ [])
    (name : Text) :
    total (withValue lines) ≤ total (collected name lines) ∧
      (total (collected name lines) = total (withValue lines) →
        EmptyLast lines ∧ (name = [] ∨ ∀ l ∈ lines, l.2 = [])) := by
  induction lines generalizing name with
  | nil => exact ⟨le_refl _, fun _ => ⟨.nil, .inr nofun⟩⟩
  | cons l lines ih =>
    have hnames : ∀ l' ∈ lines, l'.1 ≠ [] := fun l' hl' => hname l' (List.mem_cons_of_mem l hl')
    by_cases hvalue : l.2 = []
    · obtain ⟨hle, heq⟩ := ih hnames (name ++ l.1)
      have hskip : withValue (l :: lines) = withValue lines := by simp [withValue, hvalue]
      rw [collected, if_pos hvalue, hskip]
      refine ⟨hle, fun h => ?_⟩
      -- the name of this line is left over, so there must not be a value behind it
      obtain ⟨hlast, hempty⟩ := heq h
      have hrest : ∀ l' ∈ lines, l'.2 = [] := by
        apply hempty.resolve_left
        simp [hname l mem_cons_self]
      exact ⟨List.pairwise_cons.mpr ⟨fun l' hl' _ => hrest l' hl', hlast⟩,
        .inr (List.forall_mem_cons.mpr ⟨hvalue, hrest⟩)⟩
    · obtain ⟨hle, heq⟩ := ih hnames []
      have hkeep : withValue (l :: lines) = l :: withValue lines := by simp [withValue, hvalue]
      have hcollected : total (collected name (l :: lines)) =
          name.length + l.1.length + total (collected [] lines) := by
        rw [collected, if_neg hvalue]
        simp [total]
      have hown : total (l :: withValue lines) = l.1.length + total (withValue lines) := by
        simp [total]
      rw [hkeep, hcollected, hown]
      refine ⟨by omega, fun h => ?_⟩
      have hname₀ : name = [] := List.length_eq_zero_iff.mp (by omega)
      obtain ⟨hlast, _⟩ := heq (by omega)
      exact ⟨List.pairwise_cons.mpr ⟨fun _ _ hl => absurd hl hvalue, hlast⟩, .inl hname₀⟩

theorem mem_withValue {lines : List (Text × Text)} {l : Text × Text} :
    l ∈ withValue lines ↔ l ∈ lines ∧ l.2 ≠ [] := by
  simp [withValue]

theorem nodup_withValue (lines : HeaderLines) : ((withValue lines.lines).map key).Nodup :=
  lines.distinct.sublist (List.filter_sublist.map key)

/-- What comes out of the lines is exact if no empty value stands in front of a value. -/
theorem exact_collected_iff (lines : HeaderLines) :
    Exact ((collected [] lines.lines).foldl (fun h l => h.set l.1 l.2) ⟨.empty⟩) lines.lines ↔
      EmptyLast lines.lines := by
  constructor
  · intro h
    -- each name with a value is among the names that come out, which are as many
    have hsub : (withValue lines.lines).map key ⊆ (collected [] lines.lines).map key := by
      intro k hk
      obtain ⟨l, hl, rfl⟩ := List.mem_map.mp hk
      obtain ⟨hmem, hvalue⟩ := mem_withValue.mp hl
      have hget := (h (key l) l.2).mpr ⟨hvalue, l.1, hmem, rfl⟩
      have hkey := (Dict.mem_keys_iff _ _).mpr ⟨_, hget⟩
      rw [mem_keys_foldl_set] at hkey
      exact hkey.resolve_right (by simp [Dict.keys, Dict.empty])
    have hperm : ((withValue lines.lines).map key).Perm ((collected [] lines.lines).map key) := by
      apply (List.subperm_of_subset (nodup_withValue lines) hsub).perm_of_length_le
      simp [length_collected]
    have hlengths := (hperm.map List.length).sum_eq
    have htotal : ∀ l : List (Text × Text), ((l.map key).map List.length).sum = total l := by
      intro l
      simp [total, key, Function.comp_def, length_upperCamelCase]
    rw [htotal, htotal] at hlengths
    exact ((emptyLast_of_total lines.name_ne_nil []).2 hlengths.symm).1
  · intro h k v
    rw [collected_of_emptyLast h, get?_foldl_set (nodup_withValue lines)]
    simp only [mem_withValue, Dict.get?_empty, reduceCtorEq, and_false, or_false]
    constructor
    · rintro ⟨l, ⟨hl, hvalue⟩, hkey, rfl⟩
      exact ⟨hvalue, l.1, hl, hkey⟩
    · rintro ⟨hvalue, name, hl, hkey⟩
      exact ⟨(name, v), ⟨hl, hvalue⟩, hkey, rfl⟩

/-- A message is parsed to a header with each name and its own value, and nothing else, exactly if
there is nothing behind an empty value but empty values. -/
theorem header_exact_iff (execute : σ → Text → Execution σ) (s : σ) (buffer : Text)
    (reads : List Text) (cs : List Callback) (lines : HeaderLines)
    (hcalls : Calls execute s buffer reads cs) (hhead : HeadCalls lines.lines cs) :
    (∃ h rest, parseMessage execute s buffer reads = some (h, rest) ∧ Exact h lines.lines) ↔
      EmptyLast lines.lines := by
  obtain ⟨rest, hparse⟩ := parseMessage_of_calls lines.name_ne_nil hcalls hhead
  rw [← exact_collected_iff]
  constructor
  · rintro ⟨h, rest', hparse', hexact⟩
    rw [hparse] at hparse'
    cases hparse'
    exact hexact
  · intro hexact
    exact ⟨_, rest, hparse, hexact⟩

/-! ## Two messages -/

/-- `http_parser` on a message that comes in two reads, with an empty or a non-empty first value and
a cut in the second name. -/
def execute (accept : Text) (first : Bool) (buffer : Text) : Execution Bool :=
  ⟨false,
    if first then
      [.messageBegin, .url "/".toList, .headerField "accept".toList, .headerValue accept,
        .headerField "Ho".toList]
    else [.headerField "st".toList, .headerValue "a".toList, .headersComplete, .messageComplete],
    buffer.length, true⟩

def reads (accept : Text) : List Text :=
  ["GET / HTTP/1.1\r\naccept: ".toList ++ accept ++ "\r\nHo".toList, "st: a\r\n\r\n".toList]

def lines (accept : Text) : HeaderLines where
  lines := [("accept".toList, accept), ("Host".toList, "a".toList)]
  name_ne_nil := by simp
  distinct := by
    change ["Accept".toList, "Host".toList].Nodup
    decide

theorem calls_reads (accept : Text) :
    ∃ cs, Calls (execute accept) true [] (reads accept) cs ∧ HeadCalls (lines accept).lines cs := by
  have hlast : Calls (execute accept) false "st: a\r\n\r\n".toList []
      [.headerField "st".toList, .headerValue "a".toList] := .complete (by simp) rfl rfl
  refine ⟨_, .wait (.more (by simp) rfl rfl ?_ hlast), ?_⟩
  · intro c hc
    simp only [execute, if_true, mem_cons, List.not_mem_nil, or_false] at hc
    rcases hc with rfl | rfl | rfl | rfl | rfl <;> rfl
  · have haccept := LineCalls.line ["accept".toList] [accept]
    have hhost := LineCalls.line ["Ho".toList, "st".toList] ["a".toList]
    have hhead := HeadCalls.head ["/".toList] (.cons haccept (.cons hhost .nil))
    simpa [lines, execute] using hhead

/-- With a value the lines are taken apart. -/
theorem header_exact_of_value :
    ∃ h rest, parseMessage (execute "b".toList) true [] (reads "b".toList) = some (h, rest) ∧
      Exact h (lines "b".toList).lines := by
  obtain ⟨cs, hcalls, hhead⟩ := calls_reads "b".toList
  apply (header_exact_iff _ _ _ _ cs (lines "b".toList) hcalls hhead).mpr
  simp [EmptyLast, lines]

/-- Without one, the name goes in front of the next name. -/
theorem header_of_empty_value :
    (∃ cs, Calls (execute []) true [] (reads []) cs ∧ HeadCalls (lines []).lines cs) ∧
      ∃ h, parseMessage (execute []) true [] (reads []) = some (h, []) ∧
        h.headers.entries = [("AcceptHost".toList, "a".toList)] ∧ ¬ Exact h (lines []).lines := by
  refine ⟨calls_reads [], _, rfl, by decide, ?_⟩
  intro h
  have hget := (h "Host".toList "a".toList).mpr ⟨by decide, "Host".toList, by decide, by decide⟩
  revert hget
  decide

end SrsChatRoom.Protocol.HttpHeader
