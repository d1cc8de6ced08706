import SrsChatRoom.Lib.Json

/-!
# Writing JSON (`srs_protocol_json.cpp`)

`dumps` writes a tree of values. A string is escaped as far as there are short escapes, all other
control characters go out as they are; the name of a property is not escaped at all.
`dumps_valid_iff` says for which trees the text is a sentence of the grammar with the tree as its
value.
-/

namespace SrsChatRoom.Protocol.Json

open SrsChatRoom.Json
open TextStream (Text showNat showInt)
open List (append_assoc append_nil cons_append cons_ne_nil)

/-! ## Code -/

/-- `SrsJsonAny`, without the floating-point numbers. The properties of an object are in the order
in which they were set. -/
inductive SrsJsonAny
  | str (value : Text)
  | boolean (value : Bool)
  | integer (value : ℤ)
  | null
  | object (properties : List (Text × SrsJsonAny))
  | array (properties : List SrsJsonAny)

/-- The loop of `json_serialize_string`, for one character. -/
def serializeChar (c : Char) : Text :=
  if c = '"' then ['\\', '"']
  else if c = '\\' then ['\\', '\\']
  else if c = '\x08' then ['\\', 'b']
  else if c = '\x0c' then ['\\', 'f']
  else if c = '\n' then ['\\', 'n']
  else if c = '\r' then ['\\', 'r']
  else if c = '\t' then ['\\', 't']
  else [c]

/-- `json_serialize_string` -/
def jsonSerializeString (v : Text) : Text := '"' :: (v.flatMap serializeChar ++ ['"'])

/-- `SRS_JFIELD_NAME` -/
def srsJfieldName (k : Text) : Text := '"' :: (k ++ ['"', ':'])

/-- `SRS_JFIELD_CONT`, behind all but the last. -/
def srsJfieldCont {α : Type} (rest : List α) : Text := if rest = [] then [] else [',']

mutual

/-- `dumps` -/
def SrsJsonAny.dumps : SrsJsonAny → Text
  | .str value => jsonSerializeString value
  | .boolean value => if value then "true".toList else "false".toList
  | .integer value => showInt value
  | .null => "null".toList
  | .object properties => '{' :: (dumpsObject properties ++ ['}'])
  | .array properties => '[' :: (dumpsArray properties ++ [']'])

/-- The loop of `SrsJsonObject::dumps` -/
def dumpsObject : List (Text × SrsJsonAny) → Text
  | [] => []
  | (name, any) :: properties =>
    srsJfieldName name ++ any.dumps ++ srsJfieldCont properties ++ dumpsObject properties

/-- The loop of `SrsJsonArray::dumps` -/
def dumpsArray : List SrsJsonAny → Text
  | [] => []
  | any :: properties => any.dumps ++ srsJfieldCont properties ++ dumpsArray properties

end

/-! ## What is expected of it -/

mutual

/-- The tree as a value of the grammar. -/
def SrsJsonAny.value : SrsJsonAny → Value
  | .str value => .string value
  | .boolean value => .bool value
  | .integer value => .number value
  | .null => .null
  | .object properties => .object (members properties)
  | .array properties => .array (elements properties)

def members : List (Text × SrsJsonAny) → List (Text × Value)
  | [] => []
  | (name, any) :: properties => (name, any.value) :: members properties

def elements : List SrsJsonAny → List Value
  | [] => []
  | any :: properties => any.value :: elements properties

end

/-- A string has no control characters but those with a short escape. -/
def Escapable (s : Text) : Prop :=
  ∀ c ∈ s, 0x20 ≤ c.toNat ∨ c ∈ ['\x08', '\x0c', '\n', '\r', '\t']

/-- A name has neither quotes nor backslashes nor control characters. -/
def Plain (name : Text) : Prop := ∀ c ∈ name, Raw c

mutual

/-- The strings of the tree can be escaped, and the names need not be. -/
def SrsJsonAny.Writable : SrsJsonAny → Prop
  | .str value => Escapable value
  | .boolean _ => True
  | .integer _ => True
  | .null => True
  | .object properties => WritableMembers properties
  | .array properties => WritableElements properties

def WritableMembers : List (Text × SrsJsonAny) → Prop
  | [] => True
  | (name, any) :: properties => Plain name ∧ any.Writable ∧ WritableMembers properties

def WritableElements : List SrsJsonAny → Prop
  | [] => True
  | any :: properties => any.Writable ∧ WritableElements properties

end

/-! ## Strings -/

/-- What the loop does with a character: a short escape, or the character itself. -/
theorem serializeChar_eq (c : Char) :
    (∃ e, (e, c) ∈ escapes ∧ e ≠ 'u' ∧ serializeChar c = ['\\', e] ∧
      (0x20 ≤ c.toNat ∨ c ∈ ['\x08', '\x0c', '\n', '\r', '\t'])) ∨
    (c ≠ '"' ∧ c ≠ '\\' ∧ c ∉ ['\x08', '\x0c', '\n', '\r', '\t'] ∧ serializeChar c = [c]) := by
  by_cases hc : c ∈ ['"', '\\', '\x08', '\x0c', '\n', '\r', '\t']
  · left
    simp only [List.mem_cons, List.not_mem_nil, or_false] at hc
    rcases hc with rfl | rfl | rfl | rfl | rfl | rfl | rfl
    · exact ⟨'"', by decide⟩
    · exact ⟨'\\', by decide⟩
    · exact ⟨'b', by decide⟩
    · exact ⟨'f', by decide⟩
    · exact ⟨'n', by decide⟩
    · exact ⟨'r', by decide⟩
    · exact ⟨'t', by decide⟩
  · right
    simp only [List.mem_cons, List.not_mem_nil, or_false, not_or] at hc ⊢
    obtain ⟨h1, h2, h3, h4, h5, h6, h7⟩ := hc
    refine ⟨h1, h2, ⟨h3, h4, h5, h6, h7⟩, ?_⟩
    unfold serializeChar
    rw [if_neg h1, if_neg h2, if_neg h3, if_neg h4, if_neg h5, if_neg h6, if_neg h7]

variable {c : Char}

/-- An escape is one character of a string. -/
theorem charOf_serializeChar (h : 0x20 ≤ c.toNat ∨ c ∈ ['\x08', '\x0c', '\n', '\r', '\t']) :
    CharOf (serializeChar c) c := by
  rcases serializeChar_eq c with ⟨e, he, _, htext, _⟩ | ⟨hquote, hback, hnot, htext⟩
  · rw [htext]
    exact .short he
  · rw [htext]
    exact .raw ⟨h.resolve_right hnot, hquote, hback⟩

/-- The text of a character is what the loop writes for it. -/
theorem escapable_of_charOf {t b x : Text} (h : CharOf t c) (heq : t ++ b = serializeChar c ++ x) :
    b = x ∧ (0x20 ≤ c.toNat ∨ c ∈ ['\x08', '\x0c', '\n', '\r', '\t']) := by
  rcases serializeChar_eq c with ⟨e, _, hu, htext, hc⟩ | ⟨_, hback, _, htext⟩
  · rw [htext] at heq
    refine ⟨?_, hc⟩
    cases h with
    | raw hraw => exact absurd (List.cons.inj heq).1 hraw.2.2
    | short _ => exact (List.cons.inj (List.cons.inj heq).2).2
    | unicode _ => exact absurd (List.cons.inj (List.cons.inj heq).2).1.symm hu
    | pair _ _ _ _ _ => exact absurd (List.cons.inj (List.cons.inj heq).2).1.symm hu
  · rw [htext] at heq
    cases h with
    | raw hraw => exact ⟨(List.cons.inj heq).2, .inl hraw.1⟩
    | short _ => exact absurd (List.cons.inj heq).1.symm hback
    | unicode _ => exact absurd (List.cons.inj heq).1.symm hback
    | pair _ _ _ _ _ => exact absurd (List.cons.inj heq).1.symm hback

variable {s : Text}

theorem chars_serialize (h : Escapable s) : Chars (s.flatMap serializeChar) s := by
  induction s with
  | nil => exact .nil
  | cons c s ih =>
    have hrest := ih fun d hd => h d (List.mem_cons_of_mem c hd)
    exact .cons (charOf_serializeChar (h c List.mem_cons_self)) hrest

/-- A string is read up to the quote that `json_serialize_string` writes behind it. -/
theorem escapable_of_chars {b r r' : Text} (h : Chars b s)
    (heq : b ++ '"' :: r = s.flatMap serializeChar ++ '"' :: r') : Escapable s ∧ r = r' := by
  induction h with
  | nil => exact ⟨nofun, (List.cons.inj heq).2⟩
  | @cons t b s c hc _ ih =>
    rw [List.flatMap_cons, append_assoc, append_assoc] at heq
    obtain ⟨hrest, hescapable⟩ := escapable_of_charOf hc heq
    obtain ⟨hs, hr⟩ := ih hrest
    exact ⟨List.forall_mem_cons.mpr ⟨hescapable, hs⟩, hr⟩

/-! ## Values -/

/-- No value begins with a space. -/
theorem head_dumps (v : SrsJsonAny) (r : Text) : ∀ c ∈ (v.dumps ++ r).head?, isWs c = false := by
  cases v with
  | str value => simp [SrsJsonAny.dumps, jsonSerializeString, isWs]
  | boolean value => cases value <;> simp [SrsJsonAny.dumps, isWs]
  | integer value =>
    intro c hc
    have hnumber : isNumberChar c = true := by
      apply (Number.ofInt value).isNumberChar
      rw [Number.text_ofInt]
      have hne : showInt value ≠ [] := by
        unfold showInt
        split
        · exact cons_ne_nil _ _
        · exact Nat.toDigits_ne_nil
      rw [SrsJsonAny.dumps, List.head?_append_of_ne_nil _ hne] at hc
      exact List.mem_of_mem_head? hc
    by_contra hws
    simp only [Bool.not_eq_false, isWs, decide_eq_true_eq] at hws
    rcases hws with rfl | rfl | rfl | rfl
    · cases hnumber
    · cases hnumber
    · cases hnumber
    · cases hnumber
  | null => simp [SrsJsonAny.dumps, isWs]
  | object properties => simp [SrsJsonAny.dumps, isWs]
  | array properties => simp [SrsJsonAny.dumps, isWs]

theorem ends_of_isWs (h : isWs c = true) : Ends (c :: s) := by
  intro d hd
  cases hd
  simp only [isWs, decide_eq_true_eq] at h
  rcases h with rfl | rfl | rfl | rfl
  · rfl
  · rfl
  · rfl
  · rfl

/-- A number ends before the spaces and the separator behind it. -/
theorem ends_of_ws {r : Text} (h : Ws s (c :: r)) (hc : isNumberChar c = false) : Ends s := by
  cases h with
  | done =>
    intro d hd
    cases hd
    exact hc
  | skip hws _ => exact ends_of_isWs hws

theorem ends_cons {r : Text} (hc : isNumberChar c = false) : Ends (c :: r) :=
  ends_of_ws .done hc

/-- The name of a property is read up to the value behind it. -/
theorem plain_of_member {s₁ s₂ s₃ b x name : Text} (hstart : Ws s ('"' :: (b ++ '"' :: s₁)))
    (hname : Chars b name) (hcolon : Ws s₁ (':' :: s₂)) (hvalue : Ws s₂ s₃)
    (hs : s = srsJfieldName name ++ x) (hx : ∀ c ∈ x.head?, isWs c = false) :
    Plain name ∧ s₃ = x := by
  subst hs
  have htext : '"' :: (b ++ '"' :: s₁) = '"' :: (name ++ '"' :: (':' :: x)) := by
    rw [hstart.eq (by simp [srsJfieldName, isWs]), srsJfieldName]
    simp
  obtain ⟨_, hplain, rfl⟩ := hname.eq_of_raw (List.cons.inj htext).2
  have hx₂ := (List.cons.inj (hcolon.eq (by simp [isWs]))).2
  subst hx₂
  exact ⟨hplain, hvalue.eq hx⟩

mutual

/-- What is read of the text of a tree as the value of the tree is that text. -/
theorem writable_of_reads (v : SrsJsonAny) {s r r' : Text} (h : Reads s v.value r)
    (hs : s = v.dumps ++ r') (hr : Ends r) (hr' : Ends r') : v.Writable ∧ r = r' := by
  match v with
  | .str value =>
    rw [SrsJsonAny.value] at h
    rw [SrsJsonAny.dumps, jsonSerializeString, cons_append, append_assoc] at hs
    cases h with
    | string hchars =>
      have htext := (List.cons.inj hs).2
      exact escapable_of_chars hchars htext
  | .boolean value =>
    rw [SrsJsonAny.value] at h
    rw [SrsJsonAny.dumps] at hs
    cases h with
    | bool => exact ⟨trivial, List.append_cancel_left hs⟩
  | .integer value =>
    rw [SrsJsonAny.value] at h
    rw [SrsJsonAny.dumps, ← Number.text_ofInt] at hs
    generalize hq : (value : ℚ) = q at h
    cases h with
    | @number n =>
      -- both numbers go as far as their characters do
      have hread := takeWhile_number n.isNumberChar hr
      rw [hs, takeWhile_number (Number.ofInt value).isNumberChar hr'] at hread
      exact ⟨trivial, hread.symm⟩
  | .null =>
    rw [SrsJsonAny.value] at h
    rw [SrsJsonAny.dumps] at hs
    cases h with
    | null => exact ⟨trivial, List.append_cancel_left hs⟩
  | .object properties =>
    rw [SrsJsonAny.value] at h
    rw [SrsJsonAny.dumps, cons_append, append_assoc] at hs
    cases h with
    | object hmembers =>
      have htext := (List.cons.inj hs).2
      exact writable_of_readsMembers properties hmembers htext
  | .array properties =>
    rw [SrsJsonAny.value] at h
    rw [SrsJsonAny.dumps, cons_append, append_assoc] at hs
    cases h with
    | array helements =>
      have htext := (List.cons.inj hs).2
      exact writable_of_readsElements properties helements htext

theorem writable_of_readsMembers (l : List (Text × SrsJsonAny)) {s r r' : Text}
    (h : ReadsMembers s (members l) ('}' :: r)) (hs : s = dumpsObject l ++ '}' :: r') :
    WritableMembers l ∧ r = r' := by
  match l with
  | [] =>
    rw [members] at h
    rw [dumpsObject] at hs
    subst hs
    cases h with
    | nil hws =>
      have heq := hws.eq (by simp [isWs])
      exact ⟨trivial, (List.cons.inj heq).2⟩
  | [(name, any)] =>
    rw [members, members] at h
    rw [dumpsObject, dumpsObject, srsJfieldCont, if_pos rfl, append_nil, append_nil,
      append_assoc] at hs
    cases h with
    | last hstart hname hcolon hvalue hread hend =>
      obtain ⟨hplain, htext⟩ :=
        plain_of_member hstart hname hcolon hvalue hs (head_dumps any _)
      obtain ⟨hany, hrest⟩ :=
        writable_of_reads any hread htext (ends_of_ws hend rfl) (ends_cons rfl)
      subst hrest
      have heq := hend.eq (by simp [isWs])
      exact ⟨⟨hplain, hany, trivial⟩, (List.cons.inj heq).2⟩
  | (name, any) :: p :: l =>
    rw [members, members] at h
    rw [dumpsObject, srsJfieldCont, if_neg (cons_ne_nil p l), append_assoc,
      append_assoc, append_assoc] at hs
    cases h with
    | next hstart hname hcolon hvalue hread hend hnext =>
      obtain ⟨hplain, htext⟩ :=
        plain_of_member hstart hname hcolon hvalue hs (head_dumps any _)
      obtain ⟨hany, hrest⟩ :=
        writable_of_reads any hread htext (ends_of_ws hend rfl) (ends_cons rfl)
      subst hrest
      have heq := hend.eq (by simp [isWs])
      obtain ⟨hl, hr⟩ := writable_of_readsMembers (p :: l) hnext (List.cons.inj heq).2
      exact ⟨⟨hplain, hany, hl⟩, hr⟩

theorem writable_of_readsElements (l : List SrsJsonAny) {s r r' : Text}
    (h : ReadsElements s (elements l) (']' :: r)) (hs : s = dumpsArray l ++ ']' :: r') :
    WritableElements l ∧ r = r' := by
  match l with
  | [] =>
    rw [elements] at h
    rw [dumpsArray] at hs
    subst hs
    cases h with
    | nil hws =>
      have heq := hws.eq (by simp [isWs])
      exact ⟨trivial, (List.cons.inj heq).2⟩
  | [any] =>
    rw [elements, elements] at h
    rw [dumpsArray, dumpsArray, srsJfieldCont, if_pos rfl, append_nil, append_nil] at hs
    subst hs
    cases h with
    | last hws hread hend =>
      have hstart := hws.eq (head_dumps any _)
      obtain ⟨hany, hrest⟩ :=
        writable_of_reads any hread hstart (ends_of_ws hend rfl) (ends_cons rfl)
      subst hrest
      have heq := hend.eq (by simp [isWs])
      exact ⟨⟨hany, trivial⟩, (List.cons.inj heq).2⟩
  | any :: p :: l =>
    rw [elements, elements] at h
    rw [dumpsArray, srsJfieldCont, if_neg (cons_ne_nil p l), append_assoc,
      append_assoc] at hs
    subst hs
    cases h with
    | next hws hread hend hnext =>
      have hstart := hws.eq (head_dumps any _)
      obtain ⟨hany, hrest⟩ :=
        writable_of_reads any hread hstart (ends_of_ws hend rfl) (ends_cons rfl)
      subst hrest
      have heq := hend.eq (by simp [isWs])
      obtain ⟨hl, hr⟩ := writable_of_readsElements (p :: l) hnext (List.cons.inj heq).2
      exact ⟨⟨hany, hl⟩, hr⟩

end

mutual

/-- The text of a writable tree is read as the value of the tree. -/
theorem reads_dumps (v : SrsJsonAny) (h : v.Writable) (r : Text) :
    Reads (v.dumps ++ r) v.value r := by
  match v with
  | .str value =>
    rw [SrsJsonAny.dumps, jsonSerializeString, cons_append, append_assoc]
    exact .string (chars_serialize h)
  | .boolean value => exact .bool
  | .integer value =>
    rw [SrsJsonAny.dumps, SrsJsonAny.value, ← Number.text_ofInt, ← Number.value_ofInt]
    exact .number
  | .null => exact .null
  | .object properties =>
    rw [SrsJsonAny.dumps, cons_append, append_assoc]
    exact .object (readsMembers_dumpsObject properties h ('}' :: r))
  | .array properties =>
    rw [SrsJsonAny.dumps, cons_append, append_assoc]
    exact .array (readsElements_dumpsArray properties h (']' :: r))

theorem readsMembers_dumpsObject (l : List (Text × SrsJsonAny)) (h : WritableMembers l) (r : Text) :
    ReadsMembers (dumpsObject l ++ r) (members l) r := by
  match l with
  | [] => exact .nil .done
  | [(name, any)] =>
    obtain ⟨hplain, hany, _⟩ := h
    rw [dumpsObject, dumpsObject, srsJfieldCont, if_pos rfl, srsJfieldName]
    simp only [append_nil, append_assoc, cons_append, List.nil_append]
    exact .last .done (.of_raw hplain) .done .done (reads_dumps any hany r) .done
  | (name, any) :: p :: l =>
    obtain ⟨hplain, hany, hl⟩ := h
    rw [dumpsObject, srsJfieldCont, if_neg (cons_ne_nil p l), srsJfieldName]
    simp only [append_assoc, cons_append, List.nil_append]
    exact .next .done (.of_raw hplain) .done .done (reads_dumps any hany _) .done
      (readsMembers_dumpsObject (p :: l) hl r)

theorem readsElements_dumpsArray (l : List SrsJsonAny) (h : WritableElements l) (r : Text) :
    ReadsElements (dumpsArray l ++ r) (elements l) r := by
  match l with
  | [] => exact .nil .done
  | [any] =>
    rw [dumpsArray, dumpsArray, srsJfieldCont, if_pos rfl, append_nil, append_nil]
    exact .last .done (reads_dumps any h.1 r) .done
  | any :: p :: l =>
    rw [dumpsArray, srsJfieldCont, if_neg (cons_ne_nil p l), append_assoc,
      append_assoc]
    exact .next .done (reads_dumps any h.1 _) .done (readsElements_dumpsArray (p :: l) h.2 r)

end

theorem writable_of_jsonText {v : SrsJsonAny} (h : JsonText v.dumps v.value) : v.Writable := by
  obtain ⟨s₁, s₂, hstart, hread, hend⟩ := h
  have htext : s₁ = v.dumps ++ [] := by
    rw [append_nil]
    exact hstart.eq (by simpa using head_dumps v [])
  have hends : Ends s₂ := by
    cases hend with
    | done => exact nofun
    | skip hc _ => exact ends_of_isWs hc
  exact (writable_of_reads v hread htext hends nofun).1

/-- The text of a tree is a sentence of the grammar, and has the tree as its value, exactly if the
tree is writable. -/
theorem dumps_valid_iff (v : SrsJsonAny) : JsonText v.dumps v.value ↔ v.Writable := by
  constructor
  · intro h
    exact writable_of_jsonText h
  · intro h
    exact ⟨v.dumps, [], .done, by simpa using reads_dumps v h [], .done⟩

/-- The name of a property has a quote in it, and nothing escapes it. -/
theorem quote_in_name :
    (SrsJsonAny.object [("a\"b".toList, .integer 1)]).dumps =
        '{' :: ("\"a\"b\":1".toList ++ ['}']) ∧
      ¬ JsonText (SrsJsonAny.object [("a\"b".toList, .integer 1)]).dumps
        (SrsJsonAny.object [("a\"b".toList, .integer 1)]).value := by
  constructor
  · decide
  · intro h
    have hplain : Plain "a\"b".toList := (writable_of_jsonText h).1
    exact (hplain '"' (by decide)).2.1 rfl

end SrsChatRoom.Protocol.Json
