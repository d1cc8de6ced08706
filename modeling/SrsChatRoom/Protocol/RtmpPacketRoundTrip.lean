import SrsChatRoom.Protocol.Amf0RoundTrip
import SrsChatRoom.Protocol.RtmpPacketWriter

/-!
# RTMP packets that are written and read back

Reading the bytes of a packet gives the packet back exactly if the decoder accepts it (`Accepted`)
and its values are those that the AMF0 reader can return (`Readable`).
-/

namespace SrsChatRoom.Protocol

open SrsChatRoom.Kernel
open List (append_nil cons_ne_nil)

variable {α β : Type}

/-! ## Values of AMF0 -/

/-- A value that is read back if nothing follows it. -/
def ReadAlone (v : Amf0Any) : Prop := Whole v ∨ Cut v ∧ ¬ CutInObject v

variable {v : Amf0Any}

theorem ReadAlone.accepts (h : ReadAlone v) : Accepts (encode v) v [] := by
  rcases h with hwhole | ⟨hcut, hnot⟩
  · have haccepts := hwhole.accepts []
    rwa [append_nil] at haccepts
  · exact hcut.accepts hnot

variable {q : List UInt8}

theorem readAlone_of_accepts (h : Accepts (encode v) v q) : ReadAlone v ∧ q = [] := by
  rcases h.whole_or_cut with hwhole | ⟨hend, hcut⟩
  · have hback := hwhole.accepts []
    rw [append_nil] at hback
    exact ⟨.inl hwhole, (h.unique hback).2⟩
  · refine ⟨.inr ⟨hcut, fun hin => ?_⟩, hend⟩
    obtain ⟨w, j, hother, hne⟩ := hin.misread
    rw [show eofs 0 = [] from rfl, append_nil] at hother
    exact hne (hother.unique h).1

variable {r : List UInt8}

/-- Only a whole value leaves what is behind it. -/
theorem whole_of_accepts (h : Accepts (encode v ++ q) v r) (hr : r ≠ []) : Whole v ∧ r = q := by
  rcases h.whole_or_cut with hwhole | ⟨hend, -⟩
  · exact ⟨hwhole, (h.unique (hwhole.accepts q)).2⟩
  · exact absurd hend hr

theorem readAlone_object_iff (properties : Properties) :
    ReadAlone (.object properties) ↔ Whole (.object properties) := by
  constructor
  · rintro (hwhole | ⟨hcut, hnot⟩)
    · exact hwhole
    · exact absurd (.object hcut) hnot
  · exact fun hwhole => .inl hwhole

/-! ## Reading fields -/

variable {b b' : SrsBuffer} {a : α}

theorem amf0_eq_ok_iff {message : String} {x : Amf0Io α} :
    amf0 message x b = .ok a b' ↔ x b = .ok a b' := by
  unfold amf0 Prog.mapErr
  cases x b <;> simp

variable {p : List UInt8}

theorem reads_amf0 {x : Amf0Io α} (h : Reads x p a q)
    (message : String) : Reads (amf0 message x) p a q := by
  intro b hpos hrest
  obtain ⟨b', hrun, hinside, hleft⟩ := h b hpos hrest
  exact ⟨b', amf0_eq_ok_iff.mpr hrun, hinside, hleft⟩

variable {C : Prop}

theorem givesIff_amf0 {x : Amf0Io α}
    (h : GivesIff x p a C q) (message : String) : GivesIff (amf0 message x) p a C q := by
  intro b hpos hrest
  obtain ⟨hto, hof⟩ := h b hpos hrest
  constructor
  · intro hC
    obtain ⟨b', hrun, hinside, hleft⟩ := hto hC
    exact ⟨b', amf0_eq_ok_iff.mpr hrun, hinside, hleft⟩
  · exact fun b' hrun => hof b' (amf0_eq_ok_iff.mp hrun)

theorem reads_readNumber (value : BitVec 64) (q : List UInt8) :
    Reads readNumber (numberBytes value ++ q) value q := by
  refine (reads_readMarker _ _ _ _).bind ((reads_bitVec (by decide) value q _).bind ?_)
  rw [BitVec.ofNat_toNat, BitVec.setWidth_eq]
  exact reads_pure _ _

theorem reads_readNull (q : List UInt8) : Reads readNull (encode .null ++ q) () q :=
  reads_readMarker _ _ _ q

theorem reads_readUndefined (q : List UInt8) : Reads readUndefined (encode .undefined ++ q) () q :=
  reads_readMarker _ _ _ q

/-- A text that the reader of strings returns, if the field had this value. -/
def Text (value text : List UInt8) : Prop := text.length < 2 ^ 15 ∧ (text = [] → value = [])

variable {value : List UInt8}

/-- What is read into a field stands behind a marker, unless it is what the field had. -/
theorem sound_readStringInto (hvalue : value.length < 2 ^ 15)
    (p : List UInt8) : Sound (readStringInto value) p fun text q =>
      text.length < 2 ^ 15 ∧ ∃ p' read, p = Amf0Kind.string.marker :: p' ∧ AcceptsUtf8 p' read q ∧
        text = if read = [] then value else read := by
  have hmarker : Sound (readMarker .string "requires 1 only %d bytes" "String invalid marker=%#x") p
      fun _ q => p = Amf0Kind.string.marker :: q := by
    refine Sound.bind (P := fun m q => ∃ x : UInt8, p = x :: q ∧ UInt8.ofNat m = x) ?_ ?_
    · refine sound_readChecked fun hle => ?_
      match p, hle with
      | x :: p, _ => exact ⟨x, rfl, ofNat_ofBytesBE_singleton x⟩
    · rintro m q ⟨x, rfl, hm⟩
      by_cases heq : UInt8.ofNat m = Amf0Kind.string.marker
      · rw [if_pos heq]
        exact sound_pure (by rw [← heq, hm])
      · rw [if_neg heq]
        exact sound_throw
  refine Sound.bind (P := fun read q => ∃ p', p = Amf0Kind.string.marker :: p' ∧
    AcceptsUtf8 p' read q) ?_ ?_
  · refine Sound.bind hmarker ?_
    rintro ⟨⟩ q rfl
    exact (sound_readUtf8 q).mono fun read r h => ⟨q, rfl, h⟩
  · rintro read q ⟨p', rfl, haccepts⟩
    refine sound_pure ⟨?_, p', read, rfl, haccepts, rfl⟩
    split
    · exact hvalue
    · exact haccepts.value_lt

theorem reads_readStringInto {text : List UInt8} (h : Text value text) (q : List UInt8) :
    Reads (readStringInto value) (stringBytes text ++ q) text q := by
  refine Reads.bind ((reads_readMarker _ _ _ _).bind
    (reads_readUtf8 (acceptsUtf8_encodeUtf8 h.1 q))) ?_
  have hsame : (if text = [] then value else text) = text := by
    by_cases hnil : text = []
    · rw [if_pos hnil, h.2 hnil, hnil]
    · rw [if_neg hnil]
  rw [hsame]
  exact reads_pure _ _

/-- A string is read back if it has less than `2 ^ 15` bytes, and the empty string if the field is
empty already. -/
theorem givesIff_readStringInto (hvalue : value.length < 2 ^ 15) (text q : List UInt8) :
    GivesIff (readStringInto value) (stringBytes text ++ q) text (Text value text) q := by
  intro b hpos hrest
  constructor
  · exact fun htext => reads_readStringInto htext q b hpos hrest
  · intro b' hrun
    have hread := sound_readStringInto hvalue _ b hpos hrest
    rw [hrun] at hread
    obtain ⟨hinside, hlt, p', read, hp, haccepts, htext⟩ := hread
    obtain rfl := (List.cons.inj hp).2
    obtain ⟨rfl, hleft⟩ :=
      (reads_readUtf8 haccepts).unique (reads_readUtf8 (acceptsUtf8_encodeUtf8 hlt q))
    refine ⟨⟨hlt, fun hnil => ?_⟩, hinside, hleft⟩
    rw [if_pos hnil, hnil] at htext
    exact htext.symm

/-! ## What is read unless the buffer is empty -/

variable {x : RtmpIo α} {f : Option α → RtmpIo β}

variable {c : β}

theorem givesIff_of_empty (h : GivesIff (f none) [] c C r) :
    GivesIff (unlessEmpty x >>= f) [] c C r := by
  have hnone : Reads (unlessEmpty x) [] none [] := by
    refine Reads.bind (a := true) (q := []) ?_ (reads_pure _ _)
    exact reads_read fun b _ hrest => by rw [SrsBuffer.empty_eq, hrest]; rfl
  exact hnone.bind_givesIff h

/-- It is there, so it is read. -/
theorem unlessEmpty_run (h : b.rest ≠ []) (f : Option α → RtmpIo β) :
    (unlessEmpty x >>= f) b = (x >>= fun a => f (some a)) b := by
  have hempty : b.empty = false := by
    rw [SrsBuffer.empty_eq]
    exact decide_eq_false h
  have hread : unlessEmpty x b = (x >>= fun a => pure (some a)) b := by
    unfold unlessEmpty
    rw [Prog.bind_ok (Prog.read_apply _ b), hempty]
    rfl
  rw [Prog.bind_apply, hread, Prog.bind_apply, Prog.bind_apply]
  cases x b <;> rfl

theorem givesIff_of_nonempty (hp : p ≠ []) (h : GivesIff (x >>= fun a => f (some a)) p c C r) :
    GivesIff (unlessEmpty x >>= f) p c C r := by
  intro b hpos hrest
  rw [unlessEmpty_run (hrest ▸ hp)]
  exact h b hpos hrest

/-! ## Reading values -/

/-- The program reads one value of any kind. -/
structure ReadsValues (x : RtmpIo Amf0Any) : Prop where
  reads : ∀ {p v q}, Accepts p v q → Reads x p v q
  accepts : ∀ {b v b'}, b.pos ≤ b.bytes.length → x b = .ok v b' →
    Inside b b' ∧ Accepts b.rest v b'.rest

theorem srsAmf0ReadAny_accepts (hpos : b.pos ≤ b.bytes.length)
    (h : srsAmf0ReadAny b = .ok v b') : Inside b b' ∧ Accepts b.rest v b'.rest := by
  have hsound := sound_readAny (b.rest.length + 1) b.rest (Nat.lt_succ_self _) b hpos rfl
  have hread : readAny (b.rest.length + 1) b = .ok v b' := h
  rw [hread] at hsound
  exact hsound

theorem reads_srsAmf0ReadAny (h : Accepts p v q) : Reads srsAmf0ReadAny p v q := by
  intro b hpos hrest
  subst hrest
  exact h.reads (b.rest.length + 1) (Nat.lt_succ_self _) b hpos rfl

theorem readsValues_readAny (message : String) : ReadsValues (amf0 message srsAmf0ReadAny) where
  reads h := reads_amf0 (reads_srsAmf0ReadAny h) message
  accepts hpos h := srsAmf0ReadAny_accepts hpos (amf0_eq_ok_iff.mp h)

/-- `discovery` leaves the value in the buffer. -/
theorem discovery_keeps {kind : Amf0Kind} (hpos : b.pos ≤ b.bytes.length)
    (h : discovery b = .ok kind b') : b' = b := by
  have hsound : Sound discovery b.rest fun _ q => q = b.rest :=
    sound_discovery (fun _ _ => rfl) fun _ _ _ _ _ => rfl
  have hread := hsound b hpos rfl
  rw [h] at hread
  exact hread.1.eq_of_rest ⟨rfl, hpos⟩ hread.2

theorem wrap_eq_ok_iff {ε : Type} {g : ε → ε} {x : Prog SrsBuffer ε α} :
    Prog.wrap g x b = .ok a b' ↔ x b = .ok a b' := by
  unfold Prog.wrap
  cases x b <;> simp

/-- Where a kind has been discovered, `srs_amf0_read_any` reads a new value of it. -/
theorem srsAmf0ReadAny_iff {kind : Amf0Kind}
    (h : discovery b = .ok kind b) : srsAmf0ReadAny b = .ok v b' ↔ readNew kind b = .ok v b' := by
  have hread : srsAmf0ReadAny b =
      Prog.wrap (Amf0Error.wrap "parse elem") (readKind (readAny b.rest.length) kind) b :=
    Prog.bind_ok (Prog.wrap_ok h _) _
  rw [hread, wrap_eq_ok_iff]
  rfl

theorem discoverAndRead_iff {discovered read : String} (hpos : b.pos ≤ b.bytes.length) :
    discoverAndRead discovered read b = .ok v b' ↔ srsAmf0ReadAny b = .ok v b' := by
  constructor
  · intro h
    obtain ⟨kind, b'', hkind, hread⟩ := Prog.ok_of_bind_ok h
    rw [amf0_eq_ok_iff] at hkind hread
    obtain rfl := discovery_keeps hpos hkind
    exact (srsAmf0ReadAny_iff hkind).mpr hread
  · intro h
    obtain ⟨kind, b'', hkind, -⟩ := Prog.ok_of_bind_ok (show (_ >>= _ : Amf0Io Amf0Any) b = _ from h)
    rw [wrap_eq_ok_iff] at hkind
    obtain rfl := discovery_keeps hpos hkind
    unfold discoverAndRead
    rw [Prog.bind_ok (amf0_eq_ok_iff.mpr hkind)]
    exact amf0_eq_ok_iff.mpr ((srsAmf0ReadAny_iff hkind).mp h)

theorem readsValues_discoverAndRead (discovered read : String) :
    ReadsValues (discoverAndRead discovered read) where
  reads h b hpos hrest := by
    obtain ⟨b', hrun, hinside, hleft⟩ := reads_srsAmf0ReadAny h b hpos hrest
    exact ⟨b', (discoverAndRead_iff hpos).mpr hrun, hinside, hleft⟩
  accepts hpos h := srsAmf0ReadAny_accepts hpos ((discoverAndRead_iff hpos).mp h)

theorem ReadsValues.givesIff {x : RtmpIo Amf0Any} (h : ReadsValues x) (v : Amf0Any) :
    GivesIff x (encode v) v (ReadAlone v) [] := by
  intro b hpos hrest
  constructor
  · exact fun halone => h.reads halone.accepts b hpos hrest
  · intro b' hrun
    obtain ⟨hinside, haccepts⟩ := h.accepts hpos hrun
    rw [hrest] at haccepts
    obtain ⟨halone, hleft⟩ := readAlone_of_accepts haccepts
    exact ⟨halone, hinside, hleft⟩

/-- A value that is only known to be read back if something is left behind it. -/
theorem givesIff_before {f : α → RtmpIo β} {D : Prop} (hto : C → Reads x p a q)
    (hof : ∀ b b', b.pos ≤ b.bytes.length → b.rest = p → x b = .ok a b' →
      Inside b b' ∧ (b'.rest ≠ [] → C ∧ b'.rest = q))
    (hf : GivesIff (f a) q c D r) (hmore : ∀ b b', b.rest = [] → f a b ≠ .ok c b')
    (hshown : ∀ a', Only (f a') fun c' => c' = c → a' = a) :
    GivesIff (x >>= f) p c (C ∧ D) r := by
  intro b hpos hrest
  constructor
  · rintro ⟨hC, hD⟩
    exact ((hto hC).bind_givesIff hf b hpos hrest).1 hD
  · intro b'' hboth
    obtain ⟨a', b', hrun, hrun'⟩ := Prog.ok_of_bind_ok hboth
    obtain rfl := hshown a' b' c b'' hrun' rfl
    obtain ⟨hinside, hleft⟩ := hof b b' hpos hrest hrun
    have hne : b'.rest ≠ [] := fun hnil => hmore b' b'' hnil hrun'
    obtain ⟨hC, hq⟩ := hleft hne
    obtain ⟨hD, hinside', hr⟩ := (hf b' hinside.2 hq).2 b'' hrun'
    exact ⟨⟨hC, hD⟩, hinside.trans hinside', hr⟩

theorem givesIff_return (p : List UInt8) (a c : α) :
    GivesIff (pure a : RtmpIo α) p c (a = c) p := by
  intro b hpos hrest
  constructor
  · rintro rfl
    exact ⟨b, rfl, ⟨rfl, hpos⟩, hrest⟩
  · intro b' hrun
    cases hrun
    exact ⟨rfl, ⟨rfl, hpos⟩, hrest⟩

theorem givesIff_throw (e : RtmpError) (p q : List UInt8) (a : α) :
    GivesIff (Prog.throw e : RtmpIo α) p a False q := by
  intro b _ _
  exact ⟨False.elim, fun b' hrun => by cases hrun⟩

/-! ## Commands -/

theorem givesIff_readCommand (hvalue : value.length < 2 ^ 15)
    (accepts : List UInt8 → Bool) (invalid : String) (name : List UInt8) (id : BitVec 64)
    (q : List UInt8) :
    GivesIff (readCommand value accepts invalid) (commandBytes name id ++ q) (name, id)
      (Text value name ∧ accepts name = true) q := by
  rw [commandBytes, List.append_assoc]
  refine GivesIff.bind (givesIff_amf0 (givesIff_readStringInto hvalue name _) _) ?_ ?_
  · by_cases haccepts : accepts name = true
    · rw [if_pos haccepts]
      refine GivesIff.congr ?_ (iff_of_true trivial haccepts)
      exact ((reads_amf0 (reads_readNumber id q) _).bind (reads_pure _ (name, id))).givesIff
    · rw [if_neg haccepts]
      exact (givesIff_throw _ _ _ _).congr (iff_of_false not_false haccepts)
  · intro name'
    refine Only.ite (Only.bind fun id' => only_pure ?_) (only_throw _ _)
    rintro ⟨⟩
    rfl

/-- The names of most commands are fixed. -/
theorem text_and_accepts_iff {name : List UInt8} (hne : value ≠ []) (hlt : value.length < 2 ^ 15) :
    (Text value name ∧ decide (name ≠ [] ∧ name = value) = true) ↔ name = value := by
  rw [decide_eq_true_iff]
  constructor
  · exact fun h => h.2.2
  · rintro rfl
    exact ⟨⟨hlt, fun h => absurd h hne⟩, hne, rfl⟩

/-- A command with a null behind its start. -/
theorem givesIff_createStream (p : SrsCreateStreamPacket) :
    GivesIff SrsCreateStreamPacket.decode (SrsPacket.createStream p).bytes p
      (p.commandName = commandCreateStream ∧ p.commandObject = .null) [] := by
  have hbytes : (SrsPacket.createStream p).bytes =
      commandBytes p.commandName p.transactionId ++ (encode .null ++ []) := by
    rw [append_nil]
    rfl
  rw [hbytes]
  refine GivesIff.congr (GivesIff.bind (givesIff_readCommand (by decide) _ _ _ _ _)
    ((reads_amf0 (reads_readNull []) _).bind_givesIff (givesIff_return _ _ p)) ?_) ?_
  · rintro ⟨name, id⟩
    refine Only.bind fun _ => only_pure ?_
    rintro rfl
    rfl
  · rw [text_and_accepts_iff (by decide) (by decide)]
    obtain ⟨name, id, object⟩ := p
    simp [eq_comm]

theorem givesIff_createStreamRes (p : SrsCreateStreamResPacket) :
    GivesIff SrsCreateStreamResPacket.decode (SrsPacket.createStreamRes p).bytes p
      (p.commandName = commandResult ∧ p.commandObject = .null) [] := by
  have hbytes : (SrsPacket.createStreamRes p).bytes =
      commandBytes p.commandName p.transactionId ++
        (encode .null ++ (numberBytes p.streamId ++ [])) := by
    rw [append_nil]
    rfl
  rw [hbytes]
  refine GivesIff.congr (GivesIff.bind (givesIff_readCommand (by decide) _ _ _ _ _)
    ((reads_amf0 (reads_readNull _) _).bind_givesIff
      ((reads_amf0 (reads_readNumber p.streamId []) _).bind_givesIff
        (givesIff_return _ _ p))) ?_) ?_
  · rintro ⟨name, id⟩
    refine Only.bind fun _ => Only.bind fun _ => only_pure ?_
    rintro rfl
    rfl
  · rw [text_and_accepts_iff (by decide) (by decide)]
    obtain ⟨name, id, object, streamId⟩ := p
    simp [eq_comm]

theorem givesIff_fmleStart (p : SrsFMLEStartPacket) :
    GivesIff SrsFMLEStartPacket.decode (SrsPacket.fmleStart p).bytes p
      ((p.commandName = commandReleaseStream ∨ p.commandName = commandFcPublish ∨
        p.commandName = commandUnpublish) ∧ p.commandObject = .null ∧
        p.streamName.length < 2 ^ 15) [] := by
  have hbytes : (SrsPacket.fmleStart p).bytes =
      commandBytes p.commandName p.transactionId ++
        (encode .null ++ (stringBytes p.streamName ++ [])) := by
    rw [append_nil]
    rfl
  rw [hbytes]
  refine GivesIff.congr (GivesIff.bind (givesIff_readCommand (by decide) _ _ _ _ _)
    ((reads_amf0 (reads_readNull _) _).bind_givesIff
      (GivesIff.bind (givesIff_amf0 (givesIff_readStringInto (by decide) _ []) _)
        (givesIff_return _ _ p) ?_)) ?_) ?_
  · exact fun streamName => only_pure fun h => congrArg SrsFMLEStartPacket.streamName h
  · rintro ⟨name, id⟩
    refine Only.bind fun _ => Only.bind fun _ => only_pure ?_
    rintro rfl
    rfl
  · obtain ⟨name, id, object, streamName⟩ := p
    have hname : (Text commandReleaseStream name ∧ decide (name ≠ [] ∧
        (name = commandReleaseStream ∨ name = commandFcPublish ∨ name = commandUnpublish)) = true)
        ↔ name = commandReleaseStream ∨ name = commandFcPublish ∨ name = commandUnpublish := by
      rw [decide_eq_true_iff]
      constructor
      · exact fun h => h.2.2
      · intro h
        refine ⟨⟨?_, ?_⟩, ?_, h⟩ <;> rcases h with rfl | rfl | rfl <;> decide
    rw [hname]
    simp [Text, eq_comm, and_comm]

theorem givesIff_fmleStartRes (p : SrsFMLEStartResPacket) :
    GivesIff SrsFMLEStartResPacket.decode (SrsPacket.fmleStartRes p).bytes p
      (p.commandName = commandResult ∧ p.commandObject = .null ∧ p.args = .undefined) [] := by
  have hbytes : (SrsPacket.fmleStartRes p).bytes =
      commandBytes p.commandName p.transactionId ++
        (encode .null ++ (encode .undefined ++ [])) := by
    rw [append_nil]
    rfl
  rw [hbytes]
  refine GivesIff.congr (GivesIff.bind (givesIff_readCommand (by decide) _ _ _ _ _)
    ((reads_amf0 (reads_readNull _) _).bind_givesIff
      ((reads_amf0 (reads_readUndefined []) _).bind_givesIff (givesIff_return _ _ p))) ?_) ?_
  · rintro ⟨name, id⟩
    refine Only.bind fun _ => Only.bind fun _ => only_pure ?_
    rintro rfl
    rfl
  · rw [text_and_accepts_iff (by decide) (by decide)]
    obtain ⟨name, id, object, args⟩ := p
    simp [eq_comm]

theorem givesIff_publish (p : SrsPublishPacket) :
    GivesIff SrsPublishPacket.decode (SrsPacket.publish p).bytes p
      (p.commandName = commandPublish ∧ p.commandObject = .null ∧
        p.streamName.length < 2 ^ 15 ∧ p.type.length < 2 ^ 15 ∧ p.type ≠ []) [] := by
  have hbytes : (SrsPacket.publish p).bytes = commandBytes p.commandName p.transactionId ++
      (encode .null ++ (stringBytes p.streamName ++ (stringBytes p.type ++ []))) := by
    rw [append_nil]
    rfl
  have hne : stringBytes p.type ++ [] ≠ [] := cons_ne_nil _ _
  rw [hbytes]
  refine GivesIff.congr (GivesIff.bind (givesIff_readCommand (by decide) _ _ _ _ _)
    ((reads_amf0 (reads_readNull _) _).bind_givesIff
      (GivesIff.bind (givesIff_amf0 (givesIff_readStringInto (by decide) _ _) _)
        (givesIff_of_nonempty hne
          (GivesIff.bind (givesIff_amf0 (givesIff_readStringInto (by decide) _ []) _)
            (givesIff_return _ _ p) ?_)) ?_)) ?_) ?_
  · exact fun type => only_pure fun h => congrArg SrsPublishPacket.type h
  · exact fun streamName =>
      Only.bind fun _ => only_pure fun h => congrArg SrsPublishPacket.streamName h
  · rintro ⟨name, id⟩
    refine Only.bind fun _ => Only.bind fun _ => Only.bind fun _ => only_pure ?_
    rintro rfl
    rfl
  · rw [text_and_accepts_iff (by decide) (by decide)]
    obtain ⟨name, id, object, streamName, type⟩ := p
    have hlive : ascii "live" ≠ [] := by decide
    simp only [Text, hlive, Option.getD_some, SrsPublishPacket.mk.injEq, true_and, and_true]
    simp only [implies_true, and_true, imp_false]
    constructor
    · rintro ⟨hname, hstream, htype, rfl⟩
      exact ⟨hname, rfl, hstream, htype⟩
    · rintro ⟨hname, rfl, hstream, htype⟩
      exact ⟨hname, hstream, htype, rfl⟩

/-! ## Commands with objects -/

variable {properties : Properties}

/-- An object is read by `read` as it is by `srs_amf0_read_any`. -/
theorem readCommandObject_iff
    (hpos : b.pos ≤ b.bytes.length) (hrest : b.rest = Amf0Kind.object.marker :: p) :
    SrsConnectAppPacket.readCommandObject b = .ok properties b' ↔
      srsAmf0ReadAny b = .ok (.object properties) b' := by
  have hdiscovery : discovery b = .ok .object b := by
    obtain ⟨b'', hrun, -, -⟩ := reads_discovery (by decide) (not_startsEof_cons (by decide) p) b
      hpos hrest
    rw [hrun, discovery_keeps hpos hrun]
  rw [srsAmf0ReadAny_iff hdiscovery]
  constructor
  · intro h
    obtain ⟨object, b'', hread, hpure⟩ := Prog.ok_of_bind_ok h
    rw [amf0_eq_ok_iff] at hread
    obtain ⟨⟨⟩, b1, -, hread'⟩ := Prog.ok_of_bind_ok (show (_ >>= _ : Amf0Io Amf0Any) b = _ from hread)
    obtain ⟨fuel, b2, -, hread'⟩ := Prog.ok_of_bind_ok hread'
    obtain ⟨found, b3, -, hread'⟩ := Prog.ok_of_bind_ok hread'
    cases hread'
    cases hpure
    exact hread
  · intro h
    unfold SrsConnectAppPacket.readCommandObject
    rw [Prog.bind_ok (amf0_eq_ok_iff.mpr h)]
    rfl

theorem reads_readCommandObject (h : Accepts (Amf0Kind.object.marker :: p) (.object properties) q) :
    Reads SrsConnectAppPacket.readCommandObject (Amf0Kind.object.marker :: p) properties q := by
  intro b hpos hrest
  obtain ⟨b', hrun, hinside, hleft⟩ := reads_srsAmf0ReadAny h b hpos hrest
  exact ⟨b', (readCommandObject_iff hpos hrest).mpr hrun, hinside, hleft⟩

theorem readCommandObject_accepts
    (hpos : b.pos ≤ b.bytes.length) (hrest : b.rest = Amf0Kind.object.marker :: p)
    (h : SrsConnectAppPacket.readCommandObject b = .ok properties b') :
    Inside b b' ∧ Accepts b.rest (.object properties) b'.rest :=
  srsAmf0ReadAny_accepts hpos ((readCommandObject_iff hpos hrest).mp h)

theorem givesIff_readCommandObject (properties : Properties) :
    GivesIff SrsConnectAppPacket.readCommandObject (objectBytes properties) properties
      (Whole (.object properties)) [] := by
  intro b hpos hrest
  constructor
  · intro hwhole
    exact reads_readCommandObject ((readAlone_object_iff properties).mpr hwhole).accepts b hpos
      hrest
  · intro b' hrun
    obtain ⟨hinside, haccepts⟩ := readCommandObject_accepts hpos hrest hrun
    rw [hrest] at haccepts
    obtain ⟨halone, hleft⟩ := readAlone_of_accepts haccepts
    exact ⟨(readAlone_object_iff properties).mp halone, hinside, hleft⟩

/-- What is read if there is something is not what is read if there is nothing. -/
theorem unlessEmpty_ne (hnil : b.rest = []) (h : Only (f none) fun c' => c' ≠ c) :
    (unlessEmpty x >>= f) b ≠ .ok c b' := by
  intro hrun
  obtain ⟨found, b'', hread, hrest⟩ := Prog.ok_of_bind_ok hrun
  have hempty : b.empty = true := by
    rw [SrsBuffer.empty_eq]
    exact decide_eq_true hnil
  have hnone : unlessEmpty x b = .ok none b := by
    unfold unlessEmpty
    rw [Prog.bind_ok (Prog.read_apply _ b), hempty]
    rfl
  rw [hnone] at hread
  cases hread
  exact h b c b' hrest rfl

theorem givesIff_connect (p : SrsConnectAppPacket) :
    GivesIff SrsConnectAppPacket.decode (SrsPacket.connect p).bytes p
      (p.commandName = commandConnect ∧ Whole (.object p.commandObject) ∧
        ∀ args, p.args = some args → Whole (.object args)) [] := by
  obtain ⟨name, id, object, args⟩ := p
  have hshown : ∀ object' : Properties, Only (unlessEmpty (discoverAndRead "args" "args") >>=
      fun a => pure (⟨name, id, object', SrsConnectAppPacket.objectOnly a⟩ : SrsConnectAppPacket))
      fun c => c = ⟨name, id, object, args⟩ → object' = object :=
    fun object' => Only.bind fun _ => only_pure fun h =>
      congrArg SrsConnectAppPacket.commandObject h
  have hcommand : ∀ command : List UInt8 × BitVec 64, Only
      (SrsConnectAppPacket.readCommandObject >>= fun object' =>
        unlessEmpty (discoverAndRead "args" "args") >>= fun a => pure (⟨command.1, command.2,
          object', SrsConnectAppPacket.objectOnly a⟩ : SrsConnectAppPacket))
      fun c => c = ⟨name, id, object, args⟩ → command = (name, id) := by
    rintro ⟨name', id'⟩
    refine Only.bind fun _ => Only.bind fun _ => only_pure fun h => ?_
    exact Prod.ext (congrArg SrsConnectAppPacket.commandName h)
      (congrArg SrsConnectAppPacket.transactionId h)
  cases args with
  | none =>
    have hbytes : (SrsPacket.connect ⟨name, id, object, none⟩).bytes =
        commandBytes name id ++ objectBytes object := by
      show commandBytes name id ++ (objectBytes object ++ []) = _
      rw [append_nil]
    rw [hbytes]
    refine GivesIff.congr (GivesIff.bind (givesIff_readCommand (by decide) _ _ _ _ _)
      (GivesIff.bind (givesIff_readCommandObject object)
        (givesIff_of_empty (givesIff_return _ _ _)) hshown) hcommand) ?_
    rw [text_and_accepts_iff (by decide) (by decide)]
    simp [SrsConnectAppPacket.objectOnly]
  | some args =>
    have hne : encode (.object args) ≠ [] := cons_ne_nil _ _
    refine GivesIff.congr (GivesIff.bind (givesIff_readCommand (by decide) _ _ _ _ _)
      (givesIff_before (C := Whole (.object object)) (q := encode (.object args)) ?_ ?_
        (givesIff_of_nonempty hne
          (GivesIff.bind ((readsValues_discoverAndRead "args" "args").givesIff (.object args))
            (givesIff_return _ _ _) ?_)) ?_ hshown) hcommand) ?_
    · intro hwhole
      exact reads_readCommandObject (hwhole.accepts _)
    · intro b b' hpos hrest hrun
      obtain ⟨hinside, haccepts⟩ := readCommandObject_accepts hpos hrest hrun
      rw [hrest] at haccepts
      exact ⟨hinside, whole_of_accepts haccepts⟩
    · intro value
      refine only_pure fun h => ?_
      have hobject : SrsConnectAppPacket.objectOnly (some value) = some args :=
        congrArg SrsConnectAppPacket.args h
      cases value with
      | object properties => exact congrArg Amf0Any.object (Option.some.inj hobject)
      | _ => cases hobject
    · intro b b' hnil
      exact unlessEmpty_ne hnil (only_pure fun h => by cases congrArg SrsConnectAppPacket.args h)
    · rw [text_and_accepts_iff (by decide) (by decide), readAlone_object_iff]
      simp [SrsConnectAppPacket.objectOnly]

theorem givesIff_never {c : α} (h : Only x fun c' => c' ≠ c) (p q : List UInt8) :
    GivesIff x p c False q :=
  fun b _ _ => ⟨False.elim, fun b' hrun => absurd rfl (h b c b' hrun)⟩

/-- The values of a call that are read back: those behind the first one need it to be whole. -/
def CallReadable : Option Amf0Any → Option Amf0Any → Prop
  | some object, some arguments => Whole object ∧ ReadAlone arguments
  | some object, none => ReadAlone object
  | none, _ => True

theorem text_and_nonempty_iff {name : List UInt8} :
    (Text [] name ∧ decide (name ≠ []) = true) ↔ name.length < 2 ^ 15 ∧ name ≠ [] := by
  rw [decide_eq_true_iff]
  exact ⟨fun h => ⟨h.1.1, h.2⟩, fun h => ⟨⟨h.1, fun _ => rfl⟩, h.2⟩⟩

theorem givesIff_call (p : SrsCallPacket) :
    GivesIff SrsCallPacket.decode (SrsPacket.call p).bytes p
      (p.commandName.length < 2 ^ 15 ∧ p.commandName ≠ [] ∧ p.commandObject ≠ none ∧
        CallReadable p.commandObject p.arguments) [] := by
  obtain ⟨name, id, object, arguments⟩ := p
  cases object with
  | none =>
    refine (givesIff_never (Only.bind ?_) _ _).congr (by simp)
    rintro ⟨name', id'⟩
    exact Only.bind fun _ => Only.bind fun _ => only_pure fun h => by
      cases congrArg SrsCallPacket.commandObject h
  | some object =>
    have hshown : ∀ object' : Amf0Any, Only
        (unlessEmpty (discoverAndRead "discovery args" "read args") >>=
          fun a => pure (⟨name, id, some object', a⟩ : SrsCallPacket))
        fun c => c = ⟨name, id, some object, arguments⟩ → object' = object :=
      fun object' => Only.bind fun _ => only_pure fun h =>
        Option.some.inj (congrArg SrsCallPacket.commandObject h)
    have hcommand : ∀ command : List UInt8 × BitVec 64, Only
        (discoverAndRead "discovery command_object" "command_object" >>= fun object' =>
          unlessEmpty (discoverAndRead "discovery args" "read args") >>= fun a =>
            pure (⟨command.1, command.2, some object', a⟩ : SrsCallPacket))
        fun c => c = ⟨name, id, some object, arguments⟩ → command = (name, id) := by
      rintro ⟨name', id'⟩
      refine Only.bind fun _ => Only.bind fun _ => only_pure fun h => ?_
      exact Prod.ext (congrArg SrsCallPacket.commandName h)
        (congrArg SrsCallPacket.transactionId h)
    have hread := readsValues_discoverAndRead "discovery command_object" "command_object"
    cases arguments with
    | none =>
      have hbytes : (SrsPacket.call ⟨name, id, some object, none⟩).bytes =
          commandBytes name id ++ encode object := by
        show commandBytes name id ++ (encode object ++ []) = _
        rw [append_nil]
      rw [hbytes]
      refine GivesIff.congr (GivesIff.bind (givesIff_readCommand (by decide) _ _ _ _ _)
        (GivesIff.bind (hread.givesIff object) (givesIff_of_empty (givesIff_return _ _ _))
          hshown) hcommand) ?_
      rw [text_and_nonempty_iff]
      simp [CallReadable, and_assoc]
    | some arguments =>
      obtain ⟨m, r, hencode, -⟩ := exists_encode_eq arguments
      have hne : encode arguments ≠ [] := by
        rw [hencode]
        exact cons_ne_nil m r
      refine GivesIff.congr (GivesIff.bind (givesIff_readCommand (by decide) _ _ _ _ _)
        (givesIff_before (C := Whole object) (q := encode arguments) ?_ ?_
          (givesIff_of_nonempty hne
            (GivesIff.bind
              ((readsValues_discoverAndRead "discovery args" "read args").givesIff arguments)
              (givesIff_return _ _ _) ?_)) ?_ hshown) hcommand) ?_
      · exact fun hwhole => hread.reads (hwhole.accepts _)
      · intro b b' hpos hrest hrun
        obtain ⟨hinside, haccepts⟩ := hread.accepts hpos hrun
        rw [hrest] at haccepts
        exact ⟨hinside, whole_of_accepts haccepts⟩
      · exact fun value => only_pure fun h =>
          Option.some.inj (congrArg SrsCallPacket.arguments h)
      · intro b b' hnil
        exact unlessEmpty_ne hnil (only_pure fun h => by cases congrArg SrsCallPacket.arguments h)
      · rw [text_and_nonempty_iff]
        simp [CallReadable, and_assoc]

/-! ## `play` -/

theorem reads_readReset : Reads SrsPlayPacket.readReset (encode (.boolean false)) false [] := by
  have hwhole : Accepts (encode (.boolean false) ++ []) (.boolean false) [] :=
    (Whole.boolean false).accepts []
  rw [append_nil] at hwhole
  exact Reads.bind (reads_amf0 (reads_srsAmf0ReadAny hwhole) _) (reads_pure [] false)

/-- The three fields behind the name, each of which is there if one behind it is. -/
theorem givesIff_playFields (p : SrsPlayPacket) (f : BitVec 64 → BitVec 64 → Bool → SrsPlayPacket)
    (c : SrsPlayPacket) :
    GivesIff (do
      let start ← unlessEmpty (amf0 "start" readNumber)
      let duration ← unlessEmpty (amf0 "duration" readNumber)
      let reset ← unlessEmpty SrsPlayPacket.readReset
      pure (f (start.getD minusTwo) (duration.getD minusOne) (reset.getD true)))
      ((if p.hasStart then numberBytes p.start else []) ++
        ((if p.hasDuration then numberBytes p.duration else []) ++
          (if !p.reset then encode (.boolean p.reset) else []))) c
      (f p.start p.duration p.reset = c) [] := by
  obtain ⟨name, id, object, streamName, start, duration, reset⟩ := p
  have hnumber : ∀ value q, numberBytes value ++ q ≠ [] := fun value q => cons_ne_nil _ _
  have hboolean : encode (.boolean false) ≠ [] := cons_ne_nil _ _
  cases reset with
  | false =>
    have hstart : SrsPlayPacket.hasStart
        ⟨name, id, object, streamName, start, duration, false⟩ = true := by
      simp [SrsPlayPacket.hasStart]
    have hduration : SrsPlayPacket.hasDuration
        ⟨name, id, object, streamName, start, duration, false⟩ = true := by
      simp [SrsPlayPacket.hasDuration]
    rw [hstart, hduration, if_pos rfl, if_pos rfl]
    refine givesIff_of_nonempty (hnumber _ _) ?_
    refine (reads_amf0 (reads_readNumber start _) _).bind_givesIff ?_
    refine givesIff_of_nonempty (hnumber _ _) ?_
    refine (reads_amf0 (reads_readNumber duration _) _).bind_givesIff ?_
    refine givesIff_of_nonempty hboolean ?_
    exact reads_readReset.bind_givesIff (givesIff_return _ _ c)
  | true =>
    by_cases hduration : duration = minusOne
    · have hno : SrsPlayPacket.hasDuration
          ⟨name, id, object, streamName, start, duration, true⟩ = false := by
        simp [SrsPlayPacket.hasDuration, hduration]
      rw [hno, if_neg Bool.false_ne_true]
      by_cases hstart : start = minusTwo
      · have hno' : SrsPlayPacket.hasStart
            ⟨name, id, object, streamName, start, duration, true⟩ = false := by
          simp [SrsPlayPacket.hasStart, hduration, hstart]
        rw [hno', if_neg Bool.false_ne_true, hduration, hstart]
        exact givesIff_of_empty (givesIff_of_empty (givesIff_of_empty (givesIff_return _ _ c)))
      · have hyes : SrsPlayPacket.hasStart
            ⟨name, id, object, streamName, start, duration, true⟩ = true := by
          simp [SrsPlayPacket.hasStart, hstart]
        rw [hyes, if_pos rfl, hduration]
        refine givesIff_of_nonempty (hnumber _ _) ?_
        refine (reads_amf0 (reads_readNumber start _) _).bind_givesIff ?_
        exact givesIff_of_empty (givesIff_of_empty (givesIff_return _ _ c))
    · have hyes : SrsPlayPacket.hasStart
          ⟨name, id, object, streamName, start, duration, true⟩ = true := by
        simp [SrsPlayPacket.hasStart, hduration]
      have hyes' : SrsPlayPacket.hasDuration
          ⟨name, id, object, streamName, start, duration, true⟩ = true := by
        simp [SrsPlayPacket.hasDuration, hduration]
      rw [hyes, hyes', if_pos rfl, if_pos rfl]
      refine givesIff_of_nonempty (hnumber _ _) ?_
      refine (reads_amf0 (reads_readNumber start _) _).bind_givesIff ?_
      refine givesIff_of_nonempty (hnumber _ _) ?_
      refine (reads_amf0 (reads_readNumber duration _) _).bind_givesIff ?_
      exact givesIff_of_empty (givesIff_return _ _ c)

theorem givesIff_play (p : SrsPlayPacket) :
    GivesIff SrsPlayPacket.decode (SrsPacket.play p).bytes p
      (p.commandName = commandPlay ∧ p.commandObject = .null ∧ p.streamName.length < 2 ^ 15)
      [] := by
  refine GivesIff.congr (GivesIff.bind (givesIff_readCommand (by decide) _ _ _ _ _)
    ((reads_amf0 (reads_readNull _) _).bind_givesIff
      (GivesIff.bind (givesIff_amf0 (givesIff_readStringInto (by decide) _ _) _)
        (givesIff_playFields p (fun start duration reset => ⟨p.commandName, p.transactionId, .null,
          p.streamName, start, duration, reset⟩) p) ?_)) ?_) ?_
  · exact fun streamName => Only.bind fun _ => Only.bind fun _ => Only.bind fun _ =>
      only_pure fun h => congrArg SrsPlayPacket.streamName h
  · rintro ⟨name, id⟩
    refine Only.bind fun _ => Only.bind fun _ => Only.bind fun _ => Only.bind fun _ =>
      Only.bind fun _ => only_pure fun h => ?_
    exact Prod.ext (congrArg SrsPlayPacket.commandName h) (congrArg SrsPlayPacket.transactionId h)
  · rw [text_and_accepts_iff (by decide) (by decide)]
    obtain ⟨name, id, object, streamName, start, duration, reset⟩ := p
    simp [Text, eq_comm, and_comm]

/-! ## `onMetaData` -/

/-- The name is read back unless it is the one that is skipped. -/
theorem givesIff_readName (name : List UInt8) (properties : Properties) :
    GivesIff SrsOnMetaDataPacket.readName (stringBytes name ++ objectBytes properties) name
      (Text onMetaData name ∧ name ≠ setDataFrame) (objectBytes properties) := by
  intro b hpos hrest
  constructor
  · rintro ⟨htext, hne⟩
    have hname := reads_amf0 (reads_readStringInto htext (objectBytes properties)) "name"
    refine Reads.bind (f := fun name => if name = setDataFrame then amf0 "name" (readStringInto name)
      else pure name) hname ?_ b hpos hrest
    rw [if_neg hne]
    exact reads_pure _ _
  · intro b' hrun
    obtain ⟨name', b'', hread, hnext⟩ := Prog.ok_of_bind_ok hrun
    rw [amf0_eq_ok_iff] at hread
    have hdefault : onMetaData.length < 2 ^ 15 := by decide
    have hfirst := sound_readStringInto hdefault _ b hpos hrest
    rw [hread] at hfirst
    obtain ⟨hinside, -, p', read, hp, haccepts, hname'⟩ := hfirst
    obtain rfl := (List.cons.inj hp).2
    by_cases hskip : name' = setDataFrame
    · rw [if_pos hskip, amf0_eq_ok_iff] at hnext
      have hlast : name'.length < 2 ^ 15 := by
        rw [hskip]
        decide
      have hsecond := sound_readStringInto hlast _ b'' hinside.2 rfl
      rw [hnext] at hsecond
      obtain ⟨-, hlt, p'', -, hstring, -⟩ := hsecond
      obtain ⟨-, hleft⟩ :=
        (reads_readUtf8 haccepts).unique (reads_readUtf8 (acceptsUtf8_encodeUtf8 hlt _))
      -- What follows the name is an object, not a string.
      rw [hleft] at hstring
      exact absurd (List.cons.inj hstring).1 (by decide)
    · rw [if_neg hskip] at hnext
      cases hnext
      obtain ⟨htext, hinside', hleft⟩ :=
        (givesIff_readStringInto hdefault name (objectBytes properties) b hpos hrest).2 _ hread
      exact ⟨⟨htext, hskip⟩, hinside', hleft⟩

/-- An object has a marker of its own. -/
theorem Accepts.exists_object
    (h : Accepts (Amf0Kind.object.marker :: p) v q) : ∃ properties, v = .object properties := by
  generalize hp : Amf0Kind.object.marker :: p = p' at h
  cases h with
  | object h => exact ⟨_, rfl⟩
  | _ => exact absurd (List.cons.inj hp).1 (by decide)

theorem givesIff_metadata (name : List UInt8) (metadata : Properties) :
    GivesIff (do
      let any ← amf0 "metadata" srsAmf0ReadAny
      pure (⟨name, SrsOnMetaDataPacket.metadataOf (some any)⟩ : SrsOnMetaDataPacket))
      (objectBytes metadata) ⟨name, metadata⟩ (Whole (.object metadata)) [] := by
  intro b hpos hrest
  have hread := readsValues_readAny "metadata"
  constructor
  · intro hwhole
    have haccepts := ((readAlone_object_iff metadata).mpr hwhole).accepts
    have hreturn : Reads (pure ⟨name, metadata⟩ : RtmpIo SrsOnMetaDataPacket) [] ⟨name, metadata⟩
        [] := reads_pure _ _
    exact Reads.bind (hread.reads haccepts) hreturn b hpos hrest
  · intro b' hrun
    obtain ⟨value, b'', hvalue, hpure⟩ := Prog.ok_of_bind_ok hrun
    obtain ⟨hinside, haccepts⟩ := hread.accepts hpos hvalue
    rw [hrest] at haccepts
    obtain ⟨properties, rfl⟩ := haccepts.exists_object
    cases hpure
    obtain ⟨halone, hleft⟩ := readAlone_of_accepts haccepts
    exact ⟨(readAlone_object_iff _).mp halone, hinside, hleft⟩

theorem givesIff_onMetaData (p : SrsOnMetaDataPacket) :
    GivesIff SrsOnMetaDataPacket.decode (SrsPacket.onMetaData p).bytes p
      (p.name.length < 2 ^ 15 ∧ p.name ≠ [] ∧ p.name ≠ setDataFrame ∧ Whole (.object p.metadata))
      [] := by
  obtain ⟨name, metadata⟩ := p
  have hne : objectBytes metadata ≠ [] := cons_ne_nil _ _
  have hrest := givesIff_of_nonempty (f := fun any => pure
    (⟨name, SrsOnMetaDataPacket.metadataOf any⟩ : SrsOnMetaDataPacket)) hne
    (givesIff_metadata name metadata)
  refine GivesIff.congr (GivesIff.bind (givesIff_readName name metadata) hrest ?_) ?_
  · exact fun name' => Only.bind fun _ => only_pure fun h => congrArg SrsOnMetaDataPacket.name h
  · have hdefault : onMetaData ≠ [] := by decide
    simp only [Text, hdefault, imp_false, and_assoc]

/-! ## Numbers -/

theorem reads_packetRequires {n : ℕ} (h : n ≤ p.length) (code : RtmpErrorCode)
    (message : String) : Reads (packetRequires n code message) p () p := by
  intro b hpos hrest
  have hrequire : b.require n = true := by
    rw [← hrest, SrsBuffer.length_rest] at h
    rw [SrsBuffer.require_iff]
    omega
  exact ⟨b, if_pos hrequire, ⟨rfl, hpos⟩, hrest⟩

/-- The number that the bytes of a field are. -/
theorem reads_packetField (n v : ℕ) (q : List UInt8) :
    Reads (packetAccess (SrsBuffer.readUint n)) (bytesBE n v ++ q) (v % 256 ^ n) q := by
  intro b hpos hrest
  have hread := reads_readUint (n := n) (p := bytesBE n v ++ q) (by simp)
  rw [List.take_left' (length_bytesBE n v), List.drop_left' (length_bytesBE n v),
    ofBytesBE_bytesBE] at hread
  obtain ⟨b', hrun, hinside, hleft⟩ := hread b hpos hrest
  exact ⟨b', by rw [packetAccess, Prog.mapErr, hrun], hinside, hleft⟩

theorem ofNat_field {n w : ℕ} (hw : 2 ^ w = 256 ^ n) (v : BitVec w) :
    BitVec.ofNat w (v.toNat % 256 ^ n) = v := by
  rw [← hw, Nat.mod_eq_of_lt v.isLt, BitVec.ofNat_toNat, BitVec.setWidth_eq]

theorem reads_readFourBytes (value : BitVec 32) (q : List UInt8) :
    Reads readFourBytes (bytesBE 4 value.toNat ++ q) value q := by
  refine (reads_packetRequires (by simp) _ _).bind ((reads_packetField 4 _ q).bind ?_)
  rw [ofNat_field (by decide)]
  exact reads_pure _ _

/-- One byte holds the data of one event, four bytes that of the others. -/
def EventFits (eventType : BitVec 16) (eventData : BitVec 32) : Prop :=
  eventType = fmsEvent0 → (eventData.setWidth 8).signExtend 32 = eventData

/-- The data as it is read. -/
def eventDataRead (eventType : BitVec 16) (eventData : BitVec 32) : BitVec 32 :=
  if eventType = fmsEvent0 then (eventData.setWidth 8).signExtend 32 else eventData

theorem reads_readEventData (eventType : BitVec 16) (eventData : BitVec 32) (q : List UInt8) :
    Reads (SrsUserControlPacket.readEventData eventType)
      (bytesBE (SrsUserControlPacket.eventSize eventType) eventData.toNat ++ q)
      (eventDataRead eventType eventData) q := by
  unfold SrsUserControlPacket.readEventData SrsUserControlPacket.eventSize eventDataRead
  by_cases htype : eventType = fmsEvent0
  · rw [if_pos htype, if_pos htype, if_pos htype]
    refine (reads_packetRequires (by simp) _ _).bind ((reads_packetField 1 _ q).bind ?_)
    have hvalue : BitVec.ofNat 8 (eventData.toNat % 256 ^ 1) = eventData.setWidth 8 := by
      apply BitVec.eq_of_toNat_eq
      rw [BitVec.toNat_ofNat, BitVec.toNat_setWidth]
      omega
    rw [hvalue]
    exact reads_pure _ _
  · rw [if_neg htype, if_neg htype, if_neg htype]
    exact reads_readFourBytes eventData q

/-- The extra data as it is read. -/
def extraDataRead (eventType : BitVec 16) (extraData : BitVec 32) : BitVec 32 :=
  if eventType = setBufferLength then extraData else 0

theorem reads_readExtraData (eventType : BitVec 16) (extraData : BitVec 32) :
    Reads (SrsUserControlPacket.readExtraData eventType)
      (if eventType = setBufferLength then bytesBE 4 extraData.toNat else [])
      (extraDataRead eventType extraData) [] := by
  unfold SrsUserControlPacket.readExtraData extraDataRead
  by_cases htype : eventType = setBufferLength
  · rw [if_pos htype, if_pos htype, if_pos htype, ← append_nil (bytesBE 4 extraData.toNat)]
    refine (reads_packetRequires (by simp) _ _).bind ((reads_packetField 4 _ []).bind ?_)
    rw [ofNat_field (by decide)]
    exact reads_pure _ _
  · rw [if_neg htype, if_neg htype, if_neg htype]
    exact reads_pure _ _

theorem givesIff_userControl (p : SrsUserControlPacket) :
    GivesIff SrsUserControlPacket.decode (SrsPacket.userControl p).bytes p
      (EventFits p.eventType p.eventData ∧ (p.eventType ≠ setBufferLength → p.extraData = 0))
      [] := by
  obtain ⟨eventType, eventData, extraData⟩ := p
  have htype : BitVec.ofNat 16 (eventType.toNat % 256 ^ 2) = eventType :=
    ofNat_field (by decide) eventType
  have hread : GivesIff SrsUserControlPacket.decode
      (SrsPacket.userControl ⟨eventType, eventData, extraData⟩).bytes
      ⟨eventType, eventData, extraData⟩
      ((⟨eventType, eventDataRead eventType eventData, extraDataRead eventType extraData⟩ :
        SrsUserControlPacket) = ⟨eventType, eventData, extraData⟩) [] := by
    refine Reads.bind_givesIff (reads_packetRequires (by simp [SrsPacket.bytes]) _ _) ?_
    refine Reads.bind_givesIff (reads_packetField 2 eventType.toNat _) ?_
    rw [htype]
    exact (reads_readEventData eventType eventData _).bind_givesIff
      ((reads_readExtraData eventType extraData).bind_givesIff (givesIff_return _ _ _))
  refine hread.congr ?_
  rw [SrsUserControlPacket.mk.injEq]
  unfold EventFits eventDataRead extraDataRead
  constructor
  · rintro ⟨-, hdata, hextra⟩
    constructor
    · intro hevent
      rwa [if_pos hevent] at hdata
    · intro hevent
      rw [if_neg hevent] at hextra
      exact hextra.symm
  · rintro ⟨hdata, hextra⟩
    refine ⟨rfl, ?_, ?_⟩
    · by_cases hevent : eventType = fmsEvent0
      · rw [if_pos hevent, hdata hevent]
      · rw [if_neg hevent]
    · by_cases hevent : eventType = setBufferLength
      · rw [if_pos hevent]
      · rw [if_neg hevent]
        exact (hextra hevent).symm

/-! ## Packets -/

namespace SrsPacket

/-- The strings and values of the packet are those that the AMF0 reader can return. -/
def Readable : SrsPacket → Prop
  | connect p => Whole (.object p.commandObject) ∧
      ∀ args, p.args = some args → Whole (.object args)
  | call p => p.commandName.length < 2 ^ 15 ∧ CallReadable p.commandObject p.arguments
  | fmleStart p => p.streamName.length < 2 ^ 15
  | publish p => p.streamName.length < 2 ^ 15 ∧ p.type.length < 2 ^ 15 ∧ p.type ≠ []
  | play p => p.streamName.length < 2 ^ 15
  | onMetaData p => p.name.length < 2 ^ 15 ∧ p.name ≠ [] ∧ Whole (.object p.metadata)
  | _ => True

/-- The decoder accepts the command name, and the fields that are not written have their
defaults. -/
def Accepted : SrsPacket → Prop
  | connect p => p.commandName = commandConnect
  | call p => p.commandName ≠ [] ∧ p.commandObject ≠ none
  | createStream p => p.commandName = commandCreateStream ∧ p.commandObject = .null
  | createStreamRes p => p.commandName = commandResult ∧ p.commandObject = .null
  | fmleStart p => (p.commandName = commandReleaseStream ∨ p.commandName = commandFcPublish ∨
      p.commandName = commandUnpublish) ∧ p.commandObject = .null
  | fmleStartRes p => p.commandName = commandResult ∧ p.commandObject = .null ∧
      p.args = .undefined
  | publish p => p.commandName = commandPublish ∧ p.commandObject = .null
  | play p => p.commandName = commandPlay ∧ p.commandObject = .null
  | onMetaData p => p.name ≠ Protocol.setDataFrame
  | userControl p => EventFits p.eventType p.eventData ∧
      (p.eventType ≠ setBufferLength → p.extraData = 0)
  | _ => True

/-- The bytes of the packet, decoded by a new packet of the class, give the packet back. -/
def DecodesBack (p : SrsPacket) : Prop := ∃ b, p.decodeLike ⟨p.bytes, 0⟩ = .ok p b

end SrsPacket

/-- A packet in its class. -/
theorem decodesBack_of_givesIff
    (mk : α → SrsPacket) (hmk : ∀ a', mk a' = mk a → a' = a) (h : GivesIff x (mk a).bytes a C q) :
    (∃ b, (x >>= fun a' => pure (mk a') : RtmpIo SrsPacket) ⟨(mk a).bytes, 0⟩ = .ok (mk a) b) ↔
      C := by
  have hboth := GivesIff.bind h (givesIff_pure q (mk a)) (f := fun a' => pure (mk a'))
    fun a' => only_pure (hmk a')
  obtain ⟨hto, hof⟩ := hboth ⟨(mk a).bytes, 0⟩ (Nat.zero_le _) rfl
  constructor
  · rintro ⟨b, hrun⟩
    exact (hof b hrun).1.1
  · intro hC
    obtain ⟨b, hrun, -⟩ := hto ⟨hC, trivial⟩
    exact ⟨b, hrun⟩

theorem givesIff_readFourBytes (value : BitVec 32) :
    GivesIff readFourBytes (bytesBE 4 value.toNat) value True [] := by
  have hread := reads_readFourBytes value []
  rw [append_nil] at hread
  exact hread.givesIff

/-- Which packets are read back. -/
theorem SrsPacket.decodesBack_iff (p : SrsPacket) : p.DecodesBack ↔ p.Readable ∧ p.Accepted := by
  cases p with
  | connect p =>
    refine (decodesBack_of_givesIff connect (fun _ h => connect.inj h)
      (givesIff_connect p)).trans ?_
    exact and_comm
  | call p =>
    refine (decodesBack_of_givesIff call (fun _ h => call.inj h)
      (givesIff_call p)).trans ?_
    unfold Readable Accepted
    tauto
  | createStream p =>
    refine (decodesBack_of_givesIff createStream (fun _ h => createStream.inj h)
      (givesIff_createStream p)).trans ?_
    exact (and_iff_right trivial).symm
  | createStreamRes p =>
    refine (decodesBack_of_givesIff createStreamRes (fun _ h => createStreamRes.inj h)
      (givesIff_createStreamRes p)).trans ?_
    exact (and_iff_right trivial).symm
  | fmleStart p =>
    refine (decodesBack_of_givesIff fmleStart (fun _ h => fmleStart.inj h)
      (givesIff_fmleStart p)).trans ?_
    unfold Readable Accepted
    tauto
  | fmleStartRes p =>
    refine (decodesBack_of_givesIff fmleStartRes (fun _ h => fmleStartRes.inj h)
      (givesIff_fmleStartRes p)).trans ?_
    exact (and_iff_right trivial).symm
  | publish p =>
    refine (decodesBack_of_givesIff publish (fun _ h => publish.inj h)
      (givesIff_publish p)).trans ?_
    unfold Readable Accepted
    tauto
  | play p =>
    refine (decodesBack_of_givesIff play (fun _ h => play.inj h)
      (givesIff_play p)).trans ?_
    unfold Readable Accepted
    tauto
  | onMetaData p =>
    refine (decodesBack_of_givesIff onMetaData (fun _ h => onMetaData.inj h)
      (givesIff_onMetaData p)).trans ?_
    unfold Readable Accepted
    tauto
  | setWindowAckSize p =>
    have hread := GivesIff.bind (givesIff_readFourBytes p.ackowledgementWindowSize)
      (givesIff_pure [] p) (f := fun value => pure (⟨value⟩ : SrsSetWindowAckSizePacket))
      fun value => only_pure fun h => congrArg SrsSetWindowAckSizePacket.ackowledgementWindowSize h
    exact decodesBack_of_givesIff setWindowAckSize (fun _ h => setWindowAckSize.inj h) hread
  | acknowledgement p =>
    have hread := GivesIff.bind (givesIff_readFourBytes p.sequenceNumber)
      (givesIff_pure [] p) (f := fun value => pure (⟨value⟩ : SrsAcknowledgementPacket))
      fun value => only_pure fun h => congrArg SrsAcknowledgementPacket.sequenceNumber h
    exact decodesBack_of_givesIff acknowledgement (fun _ h => acknowledgement.inj h) hread
  | setChunkSize p =>
    have hread := GivesIff.bind (givesIff_readFourBytes p.chunkSize)
      (givesIff_pure [] p) (f := fun value => pure (⟨value⟩ : SrsSetChunkSizePacket))
      fun value => only_pure fun h => congrArg SrsSetChunkSizePacket.chunkSize h
    exact decodesBack_of_givesIff setChunkSize (fun _ h => setChunkSize.inj h) hread
  | userControl p =>
    refine (decodesBack_of_givesIff userControl (fun _ h => userControl.inj h)
      (givesIff_userControl p)).trans ?_
    exact (and_iff_right trivial).symm

/-- Writing the packet fills a buffer of `get_size` bytes, and decoding them gives the packet
back. -/
def SrsPacket.RoundTrips (p : SrsPacket) : Prop :=
  ∀ out : List UInt8, out.length = p.getSize →
    ∃ data b, p.encodePacket ⟨out, 0⟩ = .ok () ⟨data, p.getSize⟩ ∧ data.length = p.getSize ∧
      p.decodeLike ⟨data, 0⟩ = .ok p b

theorem SrsPacket.roundTrips_iff_decodesBack (p : SrsPacket) : p.RoundTrips ↔ p.DecodesBack := by
  constructor
  · intro h
    obtain ⟨data, b, hwrite, -, hread⟩ := h (List.replicate p.getSize 0) List.length_replicate
    rw [encodePacket_fills p List.length_replicate] at hwrite
    cases hwrite
    exact ⟨b, hread⟩
  · rintro ⟨b, hread⟩ out hout
    exact ⟨p.bytes, b, encodePacket_fills p hout, p.length_bytes, hread⟩

/-- Every packet fills its buffer, and one whose strings and values the AMF0 reader can return
comes back exactly if the decoder accepts it. -/
theorem encodePacket_fills_and_roundTrips_iff (p : SrsPacket) :
    (∀ out : List UInt8, out.length = p.getSize → ∃ data,
      p.encodePacket ⟨out, 0⟩ = .ok () ⟨data, p.getSize⟩ ∧ data.length = p.getSize) ∧
    (p.Readable → (p.RoundTrips ↔ p.Accepted)) := by
  constructor
  · exact fun out hout => ⟨p.bytes, encodePacket_fills p hout, p.length_bytes⟩
  · intro hreadable
    rw [p.roundTrips_iff_decodesBack, p.decodesBack_iff]
    exact and_iff_right hreadable

/-- The event of FMS has one byte for its data. -/
theorem fmsEvent_not_roundTrips :
    ¬ (SrsPacket.userControl ⟨fmsEvent0, 300, 0⟩).RoundTrips := by
  rw [SrsPacket.roundTrips_iff_decodesBack, SrsPacket.decodesBack_iff]
  rintro ⟨-, hfits, -⟩
  exact absurd (hfits rfl) (by decide)

end SrsChatRoom.Protocol
