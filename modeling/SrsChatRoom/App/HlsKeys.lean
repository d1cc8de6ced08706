import SrsChatRoom.App.HlsPlaylist

/-!
# The keys of an encrypted playlist

Only a segment that starts a key has a key line, so a segment is decrypted with the key of the
last such segment in front of it. That one is missing in the playlist once it has left the window,
or if it never got its name.

* `keyed` - the segments of a playlist, each with the key line above it;
* `ProperKeys` - the steps after which that is the key the segment was encrypted with.
-/

namespace SrsChatRoom.App.HlsMuxer

open SrsHlsMuxer
open Function (update update_of_ne update_self)

/-! ## Key lines -/

/-- A key line, and what it says. -/
def Line.tag : Line → Option (Path × Key)
  | .key keyUri iv => some (keyUri, iv)
  | _ => none

def Line.path : Line → Option Path
  | .uri path => some path
  | _ => none

/-- The key line that is in effect after some lines. -/
def tagAfter (tag : Option (Path × Key)) : List Line → Option (Path × Key)
  | [] => tag
  | line :: rest => tagAfter (line.tag.or tag) rest

/-- The segments of a playlist with the nearest key line above each. -/
def keyed (tag : Option (Path × Key)) : List Line → List (Option (Path × Key) × Path)
  | [] => []
  | line :: rest =>
    line.path.toList.map (line.tag.or tag, ·) ++ keyed (line.tag.or tag) rest

/-- The key files that a playlist names. -/
def keyUris (lines : List Line) : List Path := lines.filterMap fun line => line.tag.map Prod.fst

/-- The key line has the vector and the key that the file was encrypted with. -/
def Decrypts (d : Disk) (entry : Option (Path × Key) × Path) : Prop :=
  ∀ f, d.files entry.2 = some f → ∃ uri iv key,
    entry.1 = some (uri, iv) ∧ d.keys uri = some key ∧ f.cipher = some (key, iv)

/-- Each segment of the playlist can be decrypted. -/
def Disk.Readable (d : Disk) : Prop :=
  ∀ lines, d.m3u8 = some lines → ∀ entry ∈ keyed none lines, Decrypts d entry

section
variable {tag : Option (Path × Key)} {lines rest : List Line}

theorem tagAfter_append : tagAfter tag (lines ++ rest) = tagAfter (tagAfter tag lines) rest := by
  induction lines generalizing tag with
  | nil => rfl
  | cons line lines ih => exact ih

theorem keyed_append :
    keyed tag (lines ++ rest) = keyed tag lines ++ keyed (tagAfter tag lines) rest := by
  induction lines generalizing tag with
  | nil => rfl
  | cons line lines ih =>
    rw [List.cons_append, keyed, keyed, ih, List.append_assoc]
    rfl

theorem mem_uris_of_keyed {entry : Option (Path × Key) × Path} (h : entry ∈ keyed tag lines) :
    entry.2 ∈ uris lines := by
  induction lines generalizing tag with
  | nil => cases h
  | cons line lines ih =>
    obtain h | h := List.mem_append.mp h
    · cases line with
      | uri path =>
        have heq : entry = (tag, path) := List.mem_singleton.mp h
        rw [heq]
        exact List.mem_cons_self ..
      | _ => cases h
    · have hrest := ih h
      rw [uris] at hrest ⊢
      obtain ⟨l, hl, hpath⟩ := List.mem_filterMap.mp hrest
      exact List.mem_filterMap.mpr ⟨l, List.mem_cons_of_mem _ hl, hpath⟩

theorem mem_keyUris_of_keyed {path uri : Path} {iv : Key}
    (h : (some (uri, iv), path) ∈ keyed tag lines) :
    tag = some (uri, iv) ∨ uri ∈ keyUris lines := by
  induction lines generalizing tag with
  | nil => cases h
  | cons line lines ih =>
    have hcase : line.tag.or tag = some (uri, iv) →
        tag = some (uri, iv) ∨ uri ∈ keyUris (line :: lines) := by
      intro hor
      obtain hline | ⟨-, htag⟩ := Option.or_eq_some_iff.mp hor
      · refine Or.inr (List.mem_filterMap.mpr ⟨line, List.mem_cons_self .., ?_⟩)
        rw [hline]
        rfl
      · exact Or.inl htag
    obtain h | h := List.mem_append.mp h
    · obtain ⟨p, -, heq⟩ := List.mem_map.mp h
      exact hcase (Prod.mk.inj heq).1
    · obtain htag | hmem := ih h
      · exact hcase htag
      · obtain ⟨l, hl, huri⟩ := List.mem_filterMap.mp hmem
        exact Or.inr (List.mem_filterMap.mpr ⟨l, List.mem_cons_of_mem _ hl, huri⟩)

end

section
variable {cfg : Config} {tag : Option (Path × Key)}

/-- The key line in effect for a segment. -/
def tagOf (cfg : Config) (tag : Option (Path × Key)) (s : SrsHlsSegment) : Option (Path × Key) :=
  if cfg.keys ∧ startsKey cfg s.sequenceNo then some (cfg.keyFile s.sequenceNo, s.iv) else tag

theorem tagAfter_segmentLines (s : SrsHlsSegment) :
    tagAfter tag (segmentLines cfg s) = tagOf cfg tag s := by
  rw [segmentLines, tagOf]
  split <;> split <;> rfl

theorem keyed_segmentLines (s : SrsHlsSegment) :
    keyed tag (segmentLines cfg s) = [(tagOf cfg tag s, s.filepath)] := by
  rw [segmentLines, tagOf]
  split <;> split <;> rfl

end

/-! ## The invariant -/

/-- The lines of the segments that are kept. -/
def SrsHlsMuxer.lines (cfg : Config) (m : SrsHlsMuxer) : List Line :=
  m.segments.flatMap (segmentLines cfg)

/-- The key files that a playlist names, or will name. -/
def SrsHlsMuxer.keyUses (cfg : Config) (m : SrsHlsMuxer) : List Path :=
  m.disk.m3u8.elim [] keyUris ++ keyUris (m.lines cfg)

/-- The segments on the disk, and those that are kept, can be decrypted. -/
structure Covered (cfg : Config) (m : SrsHlsMuxer) : Prop where
  readable : m.disk.Readable
  moments : ∀ d ∈ m.moments, d.Readable
  kept : ∀ entry ∈ keyed none (m.lines cfg), Decrypts m.disk entry

/-- The last key line is that of the key which the muxer has. -/
def InEffect (cfg : Config) (m : SrsHlsMuxer) : Prop :=
  ∃ uri, tagAfter none (m.lines cfg) = some (uri, m.iv) ∧ m.disk.keys uri = some m.key

/-- The file of the current segment is encrypted with the key which the muxer has. -/
structure Sealed (cfg : Config) (m : SrsHlsMuxer) (cur : SrsHlsSegment) (f : TsFile) : Prop where
  cipher : f.cipher = some (m.key, m.iv)
  iv : cur.iv = m.iv
  key : startsKey cfg cur.sequenceNo = true →
    m.disk.keys (cfg.keyFile cur.sequenceNo) = some m.key

structure KeyInv (cfg : Config) (m : SrsHlsMuxer) : Prop where
  covered : Covered cfg m
  effect : startsKey cfg m.nextNo = false → InEffect cfg m
  current : ∀ cur, m.current = some cur → cur.birth + 1 = m.births ∧
    cur.sequenceNo + 1 = m.sequenceNo
  temps : ∀ p f, m.disk.temps p = some f → f.birth < m.births ∧
    ∀ cur, m.current = some cur → f.birth = cur.birth → Sealed cfg m cur f

section
variable {cfg : Config} {m : SrsHlsMuxer} {disk : Disk}

theorem Decrypts.mono {d : Disk} {entry : Option (Path × Key) × Path} (h : Decrypts d entry)
    (hfiles : ∀ f, disk.files entry.2 = some f → d.files entry.2 = some f)
    (hkeys : ∀ uri iv, entry.1 = some (uri, iv) → disk.keys uri = d.keys uri) :
    Decrypts disk entry := by
  intro f hf
  obtain ⟨uri, iv, key, htag, hkey, hcipher⟩ := h f (hfiles f hf)
  exact ⟨uri, iv, key, htag, (hkeys uri iv htag).trans hkey, hcipher⟩

/-- A change of the disk that leaves the playlist, its segments and its keys, or deletes files. -/
theorem Covered.save (h : Covered cfg m) (hm3u8 : disk.m3u8 = m.disk.m3u8)
    (hlisted : ∀ p ∈ m.disk.listed, ∀ f, disk.files p = some f → m.disk.files p = some f)
    (hkept : ∀ s ∈ m.segments, ∀ f, disk.files s.filepath = some f →
      m.disk.files s.filepath = some f)
    (hkeys : ∀ uri ∈ m.keyUses cfg, disk.keys uri = m.disk.keys uri) :
    Covered cfg (m.save disk) := by
  have hreadable : disk.Readable := by
    intro lines hlines entry hentry
    rw [hm3u8] at hlines
    refine (h.readable lines hlines entry hentry).mono ?_ ?_
    · apply hlisted
      rw [Disk.listed, hlines]
      exact mem_uris_of_keyed hentry
    · intro uri iv htag
      apply hkeys
      obtain ⟨tag, path⟩ := entry
      obtain rfl : tag = some (uri, iv) := htag
      obtain hnone | hin := mem_keyUris_of_keyed hentry
      · cases hnone
      · rw [keyUses, hlines]
        exact List.mem_append_left _ hin
  constructor
  · exact hreadable
  · intro d hd
    obtain hd | hd := List.mem_append.mp hd
    · exact h.moments d hd
    · exact List.mem_singleton.mp hd ▸ hreadable
  · intro entry hentry
    refine (h.kept entry hentry).mono ?_ ?_
    · have hpath := mem_uris_of_keyed hentry
      rw [SrsHlsMuxer.lines, uris_segments] at hpath
      obtain ⟨s, hs, hpath⟩ := List.mem_map.mp hpath
      change s.filepath = entry.2 at hpath
      rw [← hpath]
      exact hkept s hs
    · intro uri iv htag
      apply hkeys
      obtain ⟨tag, path⟩ := entry
      obtain rfl : tag = some (uri, iv) := htag
      obtain hnone | hin := mem_keyUris_of_keyed hentry
      · cases hnone
      · exact List.mem_append_right _ hin

/-- A change of temporary files only. -/
theorem KeyInv.save (h : KeyInv cfg m) {temps : Path → Option TsFile}
    (htemps : ∀ p f, temps p = some f → f.birth < m.births ∧
      ∀ cur, m.current = some cur → f.birth = cur.birth → Sealed cfg m cur f) :
    KeyInv cfg (m.save { m.disk with temps := temps }) := by
  refine ⟨h.covered.save rfl (fun _ _ _ hf => hf) (fun _ _ _ hf => hf) fun _ _ => rfl,
    h.effect, h.current, ?_⟩
  intro p f hf
  obtain ⟨hlt, hsealed⟩ := htemps p f hf
  exact ⟨hlt, fun cur hcur hbirth => { hsealed cur hcur hbirth with }⟩

theorem KeyInv.tear (h : KeyInv cfg m) (path : Path) : KeyInv cfg (m.tear path) := by
  rw [SrsHlsMuxer.tear]
  refine h.save ?_
  intro p f hf
  by_cases hp : p = path
  · rw [hp, update_self] at hf
    obtain ⟨g, hg, rfl⟩ := Option.map_eq_some_iff.mp hf
    obtain ⟨hlt, hsealed⟩ := h.temps path g hg
    exact ⟨hlt, fun cur hcur hbirth => { hsealed cur hcur hbirth with }⟩
  · rw [update_of_ne hp] at hf
    exact h.temps p f hf

/-- The current segment changes, but is the same one. -/
theorem KeyInv.mapCurrent (h : KeyInv cfg m) {g : SrsHlsSegment → SrsHlsSegment}
    (hg : ∀ s, (g s).sequenceNo = s.sequenceNo ∧ (g s).birth = s.birth ∧ (g s).iv = s.iv) :
    KeyInv cfg { m with current := m.current.map g } := by
  have hback : ∀ cur', m.current.map g = some cur' → ∃ cur, m.current = some cur ∧
      cur'.sequenceNo = cur.sequenceNo ∧ cur'.birth = cur.birth ∧ cur'.iv = cur.iv := by
    intro cur' hcur'
    obtain ⟨cur, hcur, rfl⟩ := Option.map_eq_some_iff.mp hcur'
    exact ⟨cur, hcur, hg cur⟩
  have hno : SrsHlsMuxer.nextNo { m with current := m.current.map g } = m.nextNo := by
    rw [nextNo, nextNo]
    cases m.current with
    | none => rfl
    | some cur => exact (hg cur).1
  refine ⟨{ h.covered with }, fun hstarts => h.effect (hno ▸ hstarts), ?_, ?_⟩
  · intro cur' hcur'
    obtain ⟨cur, hcur, hseq, hbirth, -⟩ := hback cur' hcur'
    rw [hseq, hbirth]
    exact h.current cur hcur
  · intro p f hf
    obtain ⟨hlt, hsealed⟩ := h.temps p f hf
    refine ⟨hlt, fun cur' hcur' hb => ?_⟩
    obtain ⟨cur, hcur, hseq, hbirth, hiv⟩ := hback cur' hcur'
    obtain ⟨hcipher, hvector, hkey⟩ := hsealed cur hcur (hb.trans hbirth)
    refine ⟨hcipher, hiv.trans hvector, ?_⟩
    rw [hseq]
    exact hkey

end

/-! ## Opening a segment -/

namespace SrsHlsMuxer

/-- The temporary file of a segment is its own. -/
def owns (m : SrsHlsMuxer) (cur : SrsHlsSegment) : Bool :=
  (m.disk.temps cur.filepath).any fun f => f.birth = cur.birth

end SrsHlsMuxer

/-- The steps after which the playlist has the right keys. A new key goes to a file that no
segment of the playlist or of the window needs, and gets there completely. A segment with an
acceptable duration is renamed, to a path of its own, unless it starts no key. And the oldest
segment that stays in the window starts a key. -/
def ProperKeys (cfg : Config) (m : SrsHlsMuxer) : Action → Prop
  | .segmentOpen io => m.current = none → startsKey cfg m.sequenceNo = true →
    io.keyOpened = true → cfg.keyFile m.sequenceNo ∉ m.keyUses cfg ∧
      (io.keyWritten = true → io.keyFlushed = true)
  | .segmentClose io => ∀ cur ∈ m.current,
    (acceptable cfg cur = true → if m.renames cur io then m.owns cur = true ∧ m.fresh cfg cur = true
      else startsKey cfg cur.sequenceNo = false) ∧
    (acceptable cfg cur = false ∨ m.renames cur io = true →
      ∀ s ∈ (shrink cfg.window (m.kept cfg cur)).1.head?, startsKey cfg s.sequenceNo = true)
  | _ => True

section
variable {cfg : Config} {m : SrsHlsMuxer}

/-- A new segment has no file yet. -/
theorem KeyInv.start (h : KeyInv cfg m) (hcur : m.current = none) :
    KeyInv cfg { m with
      current := some { sequenceNo := m.sequenceNo, birth := m.births }
      sequenceNo := m.sequenceNo + 1
      births := m.births + 1 } := by
  refine ⟨{ h.covered with }, ?_, ?_, ?_⟩
  · have heffect := h.effect
    rw [nextNo, hcur] at heffect
    exact heffect
  · intro c hc
    cases hc
    exact ⟨rfl, rfl⟩
  · intro p f hf
    obtain ⟨hlt, -⟩ := h.temps p f hf
    refine ⟨hlt.trans (Nat.lt_succ_self _), fun c hc hbirth => ?_⟩
    cases hc
    exact absurd hbirth (ne_of_lt hlt)

/-- Another key, which nothing is encrypted with yet. -/
theorem KeyInv.rotateKey (h : KeyInv cfg m) {cur : SrsHlsSegment} (hcur : m.current = some cur)
    (hstarts : startsKey cfg cur.sequenceNo = true)
    (hnew : ∀ p f, m.disk.temps p = some f → f.birth ≠ cur.birth) {io : OpenIo}
    (hio : io.keyOpened = true → cfg.keyFile cur.sequenceNo ∉ m.keyUses cfg ∧
      (io.keyWritten = true → io.keyFlushed = true)) :
    let m' := m.rotateKey cfg cur io
    KeyInv cfg m'.1 ∧ m'.1.current = m.current ∧ m'.1.disk.temps = m.disk.temps ∧
      (m'.2 = .ok () → m'.1.disk.keys (cfg.keyFile cur.sequenceNo) = some m'.1.key) := by
  have hkey : KeyInv cfg { m with key := io.key, iv := io.iv } := by
    refine ⟨{ h.covered with }, ?_, h.current, ?_⟩
    · intro hno
      change startsKey cfg m.nextNo = false at hno
      rw [nextNo, hcur] at hno
      exact absurd hstarts (by rw [show startsKey cfg cur.sequenceNo = false from hno]; simp)
    · intro p f hf
      refine ⟨(h.temps p f hf).1, fun c hc hbirth => ?_⟩
      obtain rfl := Option.some.inj (hcur.symm.trans hc)
      exact absurd hbirth (hnew p f hf)
  have hwritten : ∀ written, io.keyOpened = true →
      KeyInv cfg (SrsHlsMuxer.save { m with key := io.key, iv := io.iv } { m.disk with
        keys := update m.disk.keys (cfg.keyFile cur.sequenceNo) written }) := by
    intro written hopened
    refine ⟨hkey.covered.save rfl (fun _ _ _ hf => hf) (fun _ _ _ hf => hf) ?_, ?_, h.current, ?_⟩
    · intro uri huri
      have hne : uri ≠ cfg.keyFile cur.sequenceNo := by
        rintro rfl
        exact (hio hopened).1 huri
      exact update_of_ne hne ..
    · intro hno
      change startsKey cfg m.nextNo = false at hno
      rw [nextNo, hcur] at hno
      exact absurd hstarts (by rw [show startsKey cfg cur.sequenceNo = false from hno]; simp)
    · intro p f hf
      refine ⟨(h.temps p f hf).1, fun c hc hbirth => ?_⟩
      obtain rfl := Option.some.inj (hcur.symm.trans hc)
      exact absurd hbirth (hnew p f hf)
  simp only [SrsHlsMuxer.rotateKey]
  split
  · next hopened =>
    split
    · next hdone =>
      refine ⟨hwritten _ hopened, rfl, rfl, fun _ => ?_⟩
      show update m.disk.keys _ _ _ = some io.key
      rw [update_self, if_pos ⟨hdone, (hio hopened).2 hdone⟩]
    · exact ⟨hwritten _ hopened, rfl, rfl, fun hok => by cases hok⟩
  · exact ⟨hkey, rfl, rfl, fun hok => by cases hok⟩

/-- The file of the segment is encrypted with the key of the muxer. -/
theorem KeyInv.openFile (h : KeyInv cfg m) (hkeys : cfg.keys = true) {cur : SrsHlsSegment}
    (hcur : m.current = some cur) (hnew : ∀ p f, m.disk.temps p = some f → f.birth ≠ cur.birth)
    (hkey : startsKey cfg cur.sequenceNo = true →
      m.disk.keys (cfg.keyFile cur.sequenceNo) = some m.key) (io : OpenIo) :
    KeyInv cfg (m.openFile cfg cur io).1 := by
  have hset : ∀ path, KeyInv cfg { m with
      current := some { cur with iv := m.iv, filepath := path } } := by
    intro path
    refine ⟨{ h.covered with }, ?_, ?_, ?_⟩
    · have heffect := h.effect
      rw [nextNo, hcur] at heffect
      exact heffect
    · intro c hc
      cases hc
      exact h.current cur hcur
    · intro p f hf
      refine ⟨(h.temps p f hf).1, fun c hc hbirth => ?_⟩
      cases hc
      exact absurd hbirth (hnew p f hf)
  have hopen : ∀ path, KeyInv cfg { m with
      current := some { cur with iv := m.iv, filepath := path }
      writer := true } := fun path =>
    ⟨{ (hset path).covered with }, (hset path).effect, (hset path).current, fun p f hf =>
      ⟨((hset path).temps p f hf).1, fun c hc hb =>
        { ((hset path).temps p f hf).2 c hc hb with }⟩⟩
  have hcipher : m.configCipher cfg cur = { cur with iv := m.iv } := by
    rw [configCipher, if_pos hkeys]
  simp only [SrsHlsMuxer.openFile, hcipher, hkeys, if_true]
  split
  · split
    · refine (hopen _).save ?_
      intro p f hf
      by_cases hp : p = cfg.tsFile cur.sequenceNo io.time
      · rw [hp, update_self] at hf
        cases hf
        refine ⟨?_, fun c hc _ => ?_⟩
        · obtain ⟨hborn, -⟩ := h.current cur hcur
          show cur.birth < m.births
          omega
        · cases hc
          exact ⟨rfl, rfl, hkey⟩
      · rw [update_of_ne hp] at hf
        exact (hopen _).temps p f hf
    · exact hset _
  · exact hset _

theorem KeyInv.segmentOpen (h : KeyInv cfg m) (hkeys : cfg.keys = true) {io : OpenIo}
    (hproper : ProperKeys cfg m (.segmentOpen io)) : KeyInv cfg (m.segmentOpen cfg io).1 := by
  rw [SrsHlsMuxer.segmentOpen]
  split
  · exact h
  · next hcur =>
    have hnew : ∀ p f, m.disk.temps p = some f → f.birth ≠ m.births := fun p f hf =>
      ne_of_lt (h.temps p f hf).1
    have hstart := h.start hcur
    dsimp only
    by_cases hstarts : startsKey cfg m.sequenceNo = true
    · have hrun : ∀ m' : SrsHlsMuxer, m'.writeHlsKey cfg
          { sequenceNo := m.sequenceNo, birth := m.births } io =
          m'.rotateKey cfg { sequenceNo := m.sequenceNo, birth := m.births } io := fun m' =>
        if_pos ⟨hkeys, hstarts⟩
      obtain ⟨hrotated, hcurrent, htemps, hkey⟩ := hstart.rotateKey rfl hstarts hnew
        (hproper hcur hstarts)
      rw [hrun]
      split
      · next heq =>
        rw [heq] at hrotated
        exact hrotated
      · next heq =>
        rw [heq] at hrotated hcurrent htemps hkey
        refine hrotated.openFile hkeys hcurrent ?_ (fun _ => hkey rfl) io
        rw [htemps]
        exact hnew
    · have hrun : ∀ m' : SrsHlsMuxer, m'.writeHlsKey cfg
          { sequenceNo := m.sequenceNo, birth := m.births } io = (m', .ok ()) := fun m' =>
        if_neg fun hboth => hstarts hboth.2
      rw [hrun]
      exact hstart.openFile hkeys rfl hnew (fun hs => absurd hs hstarts) io

end

/-! ## Closing a segment -/

section
variable {cfg : Config} {m : SrsHlsMuxer} {cur : SrsHlsSegment} {io : CloseIo}

theorem KeyInv.closeWriter (h : KeyInv cfg m) (cur : SrsHlsSegment) (io : CloseIo) :
    KeyInv cfg (m.closeWriter cur io) ∧ (m.closeWriter cur io).current = m.current := by
  have hwriter : KeyInv cfg { m with writer := false } :=
    ⟨{ h.covered with }, h.effect, h.current, fun p f hf => ⟨(h.temps p f hf).1, fun c hc hb =>
      { (h.temps p f hf).2 c hc hb with }⟩⟩
  simp only [SrsHlsMuxer.closeWriter]
  split
  · exact ⟨hwriter.tear _, rfl⟩
  · exact ⟨hwriter, rfl⟩

theorem exists_own (howns : m.owns cur = true) :
    ∃ f, (m.closeWriter cur io).disk.temps cur.filepath = some f ∧ f.birth = cur.birth := by
  obtain ⟨f, hf, hbirth⟩ := (Option.any_eq_true ..).mp howns
  simp only [SrsHlsMuxer.closeWriter]
  split
  · refine ⟨{ f with whole := false }, ?_, of_decide_eq_true hbirth⟩
    show update m.disk.temps cur.filepath _ cur.filepath = _
    rw [update_self, hf]
    rfl
  · exact ⟨f, hf, of_decide_eq_true hbirth⟩

/-- The window and the key line that the next segment will be under. -/
structure Ready (cfg : Config) (m : SrsHlsMuxer) (no : ℕ) : Prop where
  covered : Covered cfg m
  effect : startsKey cfg no = false → InEffect cfg m

theorem lines_append (m : SrsHlsMuxer) (s : SrsHlsSegment) :
    SrsHlsMuxer.lines cfg { m with segments := m.segments ++ [s] } =
      m.lines cfg ++ segmentLines cfg s := by
  simp [SrsHlsMuxer.lines, List.flatMap_append]

/-- A segment that is encrypted with the key in effect is appended to the window. -/
theorem Ready.keep (h : Ready cfg m cur.sequenceNo) (hkeys : cfg.keys = true) {f : TsFile}
    (hf : m.disk.temps cur.filepath = some f) (hsealed : Sealed cfg m cur f)
    (hfresh : m.fresh cfg cur = true) (hrenamed : io.renamed = true) :
    Ready cfg (m.keep cfg cur io).1 (cur.sequenceNo + 1) := by
  obtain ⟨hpath, hlisted⟩ := of_decide_eq_true hfresh
  have hsaved : Covered cfg (m.save { m.disk with
      temps := update m.disk.temps cur.filepath none
      files := update m.disk.files (named cfg cur).filepath (some f) }) := by
    refine h.covered.save rfl ?_ ?_ fun _ _ => rfl
    · intro p hp g hg
      have hne : p ≠ (named cfg cur).filepath := fun heq => hlisted (heq ▸ hp)
      exact (update_of_ne hne ..).symm.trans hg
    · intro s hs g hg
      have hne : s.filepath ≠ (named cfg cur).filepath := by
        intro heq
        rw [← heq] at hpath
        exact hpath (List.mem_map_of_mem hs)
      exact (update_of_ne hne ..).symm.trans hg
  -- the key line that the segment is under
  have htag : ∃ uri, tagOf cfg (tagAfter none (m.lines cfg)) (named cfg cur) = some (uri, m.iv) ∧
      m.disk.keys uri = some m.key := by
    by_cases hstarts : startsKey cfg cur.sequenceNo = true
    · refine ⟨cfg.keyFile cur.sequenceNo, ?_, hsealed.key hstarts⟩
      rw [tagOf, if_pos ⟨hkeys, hstarts⟩]
      exact congrArg (fun iv => some (cfg.keyFile cur.sequenceNo, iv)) hsealed.iv
    · obtain ⟨uri, hlast, hkey⟩ := h.effect (by simpa using hstarts)
      refine ⟨uri, ?_, hkey⟩
      rw [tagOf, if_neg fun hboth => hstarts hboth.2]
      exact hlast
  obtain ⟨uri, htag, hkey⟩ := htag
  have hlines := @lines_append cfg m (named cfg cur)
  rw [keep_run hf hrenamed]
  refine ⟨⟨hsaved.readable, hsaved.moments, ?_⟩, fun _ => ⟨uri, ?_, hkey⟩⟩
  · intro entry hentry
    change entry ∈ keyed none
      (SrsHlsMuxer.lines cfg { m with segments := m.segments ++ [named cfg cur] }) at hentry
    rw [hlines, keyed_append, keyed_segmentLines] at hentry
    obtain hentry | hentry := List.mem_append.mp hentry
    · exact hsaved.kept entry hentry
    · obtain rfl := List.mem_singleton.mp hentry
      intro g hg
      change update m.disk.files _ _ _ = some g at hg
      rw [update_self] at hg
      cases hg
      exact ⟨uri, m.iv, m.key, htag, hkey, hsealed.cipher⟩
  · show tagAfter none
      (SrsHlsMuxer.lines cfg { m with segments := m.segments ++ [named cfg cur] }) = _
    rw [hlines, tagAfter_append, tagAfter_segmentLines]
    exact htag

/-- What follows a segment that starts a key needs no key line in front of it. -/
theorem startsKey_lines (hkeys : cfg.keys = true) {segments : List SrsHlsSegment}
    (hstarts : ∀ s ∈ segments.head?, startsKey cfg s.sequenceNo = true)
    (tag : Option (Path × Key)) :
    keyed tag (segments.flatMap (segmentLines cfg)) =
        keyed none (segments.flatMap (segmentLines cfg)) ∧
      (segments ≠ [] → tagAfter tag (segments.flatMap (segmentLines cfg)) =
        tagAfter none (segments.flatMap (segmentLines cfg))) := by
  cases segments with
  | nil => exact ⟨rfl, fun hne => absurd rfl hne⟩
  | cons s rest =>
    have hs : startsKey cfg s.sequenceNo = true := hstarts s rfl
    have htag : ∀ tag, tagOf cfg tag s = some (cfg.keyFile s.sequenceNo, s.iv) := fun tag =>
      if_pos ⟨hkeys, hs⟩
    rw [List.flatMap_cons]
    constructor
    · rw [keyed_append, keyed_append, keyed_segmentLines, keyed_segmentLines,
        tagAfter_segmentLines, tagAfter_segmentLines, htag tag, htag none]
    · intro _
      rw [tagAfter_append, tagAfter_append, tagAfter_segmentLines, tagAfter_segmentLines,
        htag tag, htag none]

theorem keyed_take {lines : List Line} (n : ℕ) {tag : Option (Path × Key)}
    {entry : Option (Path × Key) × Path} (h : entry ∈ keyed tag (lines.take n)) :
    entry ∈ keyed tag lines := by
  rw [← List.take_append_drop n lines, keyed_append]
  exact List.mem_append_left _ h

variable {no : ℕ}

/-- A window that begins with a new key. -/
theorem Ready.shrink (h : Ready cfg m no) (hkeys : cfg.keys = true)
    (hstarts : ∀ s ∈ (shrink cfg.window m.segments).1.head?,
      startsKey cfg s.sequenceNo = true) :
    Ready cfg { m with segments := (shrink cfg.window m.segments).1 } no := by
  obtain ⟨hkeyed, htag⟩ := startsKey_lines hkeys hstarts
    (tagAfter none ((HlsMuxer.shrink cfg.window m.segments).2.flatMap (segmentLines cfg)))
  have hlines : m.lines cfg =
      (HlsMuxer.shrink cfg.window m.segments).2.flatMap (segmentLines cfg) ++
        (HlsMuxer.shrink cfg.window m.segments).1.flatMap (segmentLines cfg) := by
    rw [← List.flatMap_append, shrink_append]
    rfl
  refine ⟨{ h.covered with kept := ?_ }, fun hno => ?_⟩
  · intro entry hentry
    change entry ∈ keyed none
      ((HlsMuxer.shrink cfg.window m.segments).1.flatMap (segmentLines cfg)) at hentry
    apply h.covered.kept
    rw [hlines, keyed_append, hkeyed]
    exact List.mem_append_right _ hentry
  · obtain ⟨uri, hlast, hkey⟩ := h.effect hno
    refine ⟨uri, ?_, hkey⟩
    show tagAfter none
      ((HlsMuxer.shrink cfg.window m.segments).1.flatMap (segmentLines cfg)) = _
    have hne : (HlsMuxer.shrink cfg.window m.segments).1 ≠ [] := by
      intro hnil
      rw [SrsHlsMuxer.lines, shrink_nil hnil] at hlast
      cases hlast
    rw [← htag hne, ← tagAfter_append, ← hlines]
    exact hlast

theorem Ready.refresh (h : Ready cfg m no) : Ready cfg (m.refreshM3u8 cfg io).1 no := by
  rw [refreshM3u8]
  split
  · exact h
  · next head rest hsegments =>
    split
    · split
      · split
        · have hreadable : Disk.Readable { m.disk with
              m3u8 := some ((playlist cfg head.sequenceNo m.segments).take
                (io.m3u8Flushed.getD (playlist cfg head.sequenceNo m.segments).length)) } := by
            intro lines hlines entry hentry
            cases hlines
            have hin := keyed_take _ hentry
            exact h.covered.kept entry hin
          refine ⟨⟨hreadable, ?_, h.covered.kept⟩, h.effect⟩
          intro d hd
          obtain hd | hd := List.mem_append.mp hd
          · exact h.covered.moments d hd
          · exact List.mem_singleton.mp hd ▸ hreadable
        · exact h
      · exact h
    · exact h

theorem Ready.unlink (h : Ready cfg m no) (expired : List SrsHlsSegment) :
    Ready cfg (expired.foldl (unlinkFile cfg io) m) no := by
  induction expired generalizing m with
  | nil => exact h
  | cons s expired ih =>
    rw [List.foldl_cons, unlinkFile]
    split
    · have hgone : ∀ p f, update m.disk.files s.filepath none p = some f →
          m.disk.files p = some f := by
        intro p f hf
        by_cases hp : p = s.filepath
        · rw [hp, update_self] at hf
          cases hf
        · rw [update_of_ne hp] at hf
          exact hf
      exact ih ⟨h.covered.save rfl (fun p _ => hgone p) (fun s _ => hgone s.filepath)
        fun _ _ => rfl, h.effect⟩
    · exact ih h

theorem Ready.publish (h : Ready cfg m no) (hkeys : cfg.keys = true)
    (hstarts : ∀ s ∈ (HlsMuxer.shrink cfg.window m.segments).1.head?,
      startsKey cfg s.sequenceNo = true) : Ready cfg (m.publish cfg io).1 no :=
  (h.shrink hkeys hstarts).refresh.unlink _

/-- A muxer without a current segment. -/
theorem Ready.closed (h : Ready cfg m m.sequenceNo)
    (htemps : ∀ p f, m.disk.temps p = some f → f.birth < m.births) :
    KeyInv cfg { m with current := none } :=
  ⟨{ h.covered with }, h.effect, fun _ hc => by (cases hc), fun p f hf =>
    ⟨htemps p f hf, fun _ hc => by (cases hc)⟩⟩

theorem KeyInv.keepOrFail (h : KeyInv cfg m) (hkeys : cfg.keys = true)
    (hcur : m.current = some cur) (hproper : ProperKeys cfg m (.segmentClose io))
    (hacceptable : acceptable cfg cur = true) :
    let m' := (m.closeWriter cur io).keep cfg cur io
    Ready cfg m'.1 (cur.sequenceNo + 1) ∧ m'.1.sequenceNo = cur.sequenceNo + 1 ∧
      (∀ p f, m'.1.disk.temps p = some f → f.birth < m'.1.births) ∧
      (m'.2 = .ok () → m'.1.segments = m.kept cfg cur ∧ m.renames cur io = true) := by
  obtain ⟨hok, -⟩ := hproper cur hcur
  have hrename := hok hacceptable
  obtain ⟨hwriter, hcurrent⟩ := h.closeWriter cur io
  obtain ⟨hsegments, hsequence, -, hlisted, -⟩ := closeWriter_same m cur io
  have hready : Ready cfg (m.closeWriter cur io) cur.sequenceNo := by
    have heffect := hwriter.effect
    rw [nextNo, hcurrent, hcur] at heffect
    exact ⟨hwriter.covered, heffect⟩
  obtain ⟨-, hno⟩ := h.current cur hcur
  have htemps : ∀ p f, (m.closeWriter cur io).disk.temps p = some f →
      f.birth < (m.closeWriter cur io).births := fun p f hf => (hwriter.temps p f hf).1
  dsimp only
  by_cases hrenames : m.renames cur io = true
  · rw [if_pos hrenames] at hrename
    obtain ⟨hrenamed, -⟩ := of_decide_eq_true hrenames
    obtain ⟨f, hf, hbirth⟩ := @exists_own m cur io hrename.1
    have hsealed := (hwriter.temps _ f hf).2 cur (hcurrent.trans hcur) hbirth
    have hfresh : (m.closeWriter cur io).fresh cfg cur = true := by
      rw [fresh, hsegments, hlisted]
      exact hrename.2
    have hrun := @keep_run cfg _ cur io f hf hrenamed
    refine ⟨hready.keep hkeys hf hsealed hfresh hrenamed, ?_, ?_, fun _ => ⟨?_, hrenames⟩⟩
    · rw [hrun]
      exact hsequence.trans hno.symm
    · rw [hrun]
      exact temps_update htemps _
    · rw [hrun]
      show (m.closeWriter cur io).segments ++ [named cfg cur] = _
      rw [hsegments, SrsHlsMuxer.kept, if_pos hacceptable]
  · rw [if_neg hrenames] at hrename
    rw [keep_failed hrenames]
    -- the segment had the key in effect, and so has the next one
    exact ⟨⟨hready.covered, fun _ => hready.effect hrename⟩, hsequence.trans hno.symm, htemps,
      fun hok => by cases hok⟩

theorem KeyInv.dropOrFail (h : KeyInv cfg m) (hcur : m.current = some cur)
    (hacceptable : ¬ acceptable cfg cur = true) :
    let m' := (m.closeWriter cur io).drop cur io
    Ready cfg m'.1 cur.sequenceNo ∧ m'.1.sequenceNo = cur.sequenceNo ∧
      (∀ p f, m'.1.disk.temps p = some f → f.birth < m'.1.births) ∧
      m'.1.segments = m.kept cfg cur := by
  obtain ⟨hwriter, hcurrent⟩ := h.closeWriter cur io
  obtain ⟨hsegments, hsequence, -, -, -⟩ := closeWriter_same m cur io
  obtain ⟨-, hno⟩ := h.current cur hcur
  have hless : (m.closeWriter cur io).sequenceNo - 1 = cur.sequenceNo := by omega
  have hkept : (m.closeWriter cur io).segments = m.kept cfg cur := by
    rw [hsegments, SrsHlsMuxer.kept, if_neg hacceptable]
  have htemps : ∀ p f, (m.closeWriter cur io).disk.temps p = some f →
      f.birth < (m.closeWriter cur io).births := fun p f hf => (hwriter.temps p f hf).1
  have hready : Ready cfg { m.closeWriter cur io with
      sequenceNo := (m.closeWriter cur io).sequenceNo - 1 } cur.sequenceNo := by
    have heffect := hwriter.effect
    rw [nextNo, hcurrent, hcur] at heffect
    exact ⟨{ hwriter.covered with }, heffect⟩
  simp only [SrsHlsMuxer.drop]
  split
  · refine ⟨⟨hready.covered.save rfl (fun _ _ _ hf => hf) (fun _ _ _ hf => hf) fun _ _ => rfl,
      hready.effect⟩, hless, temps_update htemps _, hkept⟩
  · exact ⟨hready, hless, htemps, hkept⟩

theorem Ready.publishClosed {m' : SrsHlsMuxer} (h : Ready cfg m' no)
    (hkeys : cfg.keys = true) (hno : m'.sequenceNo = no)
    (htemps : ∀ p f, m'.disk.temps p = some f → f.birth < m'.births)
    (hstarts : ∀ s ∈ (HlsMuxer.shrink cfg.window m'.segments).1.head?,
      startsKey cfg s.sequenceNo = true) :
    KeyInv cfg { (m'.publish cfg io).1 with current := none } := by
  obtain ⟨htemps', hbirths', hno', -⟩ := @publish_same cfg m' io
  refine Ready.closed ?_ ?_
  · rw [hno', hno]
    exact h.publish hkeys hstarts
  · rw [htemps', hbirths']
    exact htemps

theorem KeyInv.segmentClose (h : KeyInv cfg m) (hkeys : cfg.keys = true)
    (hproper : ProperKeys cfg m (.segmentClose io)) : KeyInv cfg (m.segmentClose cfg io).1 := by
  rw [SrsHlsMuxer.segmentClose]
  split
  · exact h
  · next cur hcur =>
    obtain ⟨-, hwindow⟩ := hproper cur hcur
    show KeyInv cfg { (m.doSegmentClose cfg cur io).1 with current := none }
    rw [SrsHlsMuxer.doSegmentClose]
    by_cases hacceptable : acceptable cfg cur = true
    · obtain ⟨hready, hno, htemps, hkept⟩ := h.keepOrFail hkeys hcur hproper hacceptable
      simp only [if_pos hacceptable]
      split
      · next heq =>
        rw [heq] at hready hno htemps
        rw [← hno] at hready
        exact hready.closed htemps
      · next heq =>
        rw [heq] at hready hno htemps hkept
        obtain ⟨hsegments, hrenames⟩ := hkept rfl
        refine hready.publishClosed hkeys hno htemps ?_
        rw [hsegments]
        exact hwindow (Or.inr hrenames)
    · obtain ⟨hready, hno, htemps, hkept⟩ := @KeyInv.dropOrFail cfg m cur io h hcur hacceptable
      simp only [if_neg hacceptable]
      split
      · next heq =>
        rw [heq] at hready hno htemps
        rw [← hno] at hready
        exact hready.closed htemps
      · next heq =>
        rw [heq] at hready hno htemps hkept
        refine hready.publishClosed hkeys hno htemps ?_
        rw [hkept]
        exact hwindow (Or.inl (by simpa using hacceptable))

end

/-! ## Runs -/

section
variable {cfg : Config} {m : SrsHlsMuxer}

theorem KeyInv.step (h : KeyInv cfg m) (hkeys : cfg.keys = true) {a : Action}
    (hproper : ProperKeys cfg m a) {t : SrsHlsMuxer} (ht : step cfg m a = some t) :
    KeyInv cfg t := by
  cases a with
  | segmentOpen io =>
    cases ht
    exact h.segmentOpen hkeys hproper
  | onSequenceHeader =>
    cases ht
    exact h.mapCurrent fun _ => ⟨rfl, rfl, rfl⟩
  | updateDuration dts =>
    cases ht
    exact h.mapCurrent fun _ => ⟨rfl, rfl, rfl⟩
  | flush dts written =>
    cases ht
    have hduration : KeyInv cfg (m.updateDuration dts) := h.mapCurrent fun _ => ⟨rfl, rfl, rfl⟩
    rw [SrsHlsMuxer.flush]
    split
    · exact h
    · dsimp only
      split
      · exact hduration
      · split
        · exact hduration.tear _
        · exact hduration
  | segmentClose io =>
    cases ht
    exact h.segmentClose hkeys hproper

theorem keyInv_new (cfg : Config) : KeyInv cfg .new := by
  refine ⟨⟨?_, ?_, ?_⟩, ?_, ?_, ?_⟩
  · intro lines hlines
    cases hlines
  · intro d hd
    cases hd
  · intro entry hentry
    cases hentry
  · intro hno
    -- the first segment starts a key
    exact absurd hno (by simp [startsKey, nextNo, SrsHlsMuxer.new])
  · intro cur hc
    cases hc
  · intro p f hf
    cases hf

/-- Over all such runs, each segment of the playlist can be decrypted, at every moment. -/
theorem readable_of_proper_runs (cfg : Config) (hkeys : cfg.keys = true)
    (hrun : System.Reaches (step cfg) (ProperKeys cfg) .new m) :
    (∀ d ∈ m.moments, d.Readable) ∧ m.disk.Readable := by
  have hinv : KeyInv cfg m := System.Reaches.invariant
    (fun _ _ _ h hproper ht => h.step hkeys hproper ht) hrun (keyInv_new cfg)
  exact ⟨hinv.covered.moments, hinv.covered.readable⟩

instance (cfg : Config) (m : SrsHlsMuxer) (a : Action) : Decidable (ProperKeys cfg m a) :=
  match a with
  | .segmentOpen _ => inferInstanceAs (Decidable (_ → _ → _ → _ ∧ _))
  | .segmentClose _ => inferInstanceAs (Decidable (∀ cur ∈ m.current, _ ∧ _))
  | .onSequenceHeader => .isTrue trivial
  | .updateDuration _ => .isTrue trivial
  | .flush _ _ => .isTrue trivial

/-- A window of one second, and a key for two segments. -/
def twoPerKey : Config :=
  { oneSecond with
    keys := true
    fragmentsPerKey := 2
    keyFile := fun n => if n = 0 then "live-0.key" else "live-2.key" }

/-- A segment of one second, with a key if it starts one. -/
def oneKeyedSegment (key iv : Key) : List Action :=
  [.segmentOpen { key := key, iv := iv }, .flush 0 true, .flush 90000 true, .segmentClose {}]

/-- The second segment is decrypted with the key of the first. -/
theorem readable_of_two_segments :
    ∃ m, System.Reaches (step twoPerKey) (ProperKeys twoPerKey) .new m ∧ m.disk.Readable ∧
      m.disk.m3u8.map (keyed none) =
        some [(some ("live-0.key", 7), "live-0.ts"), (some ("live-0.key", 7), "live-1.ts")] := by
  obtain ⟨m, hrun, -, hkeyed⟩ := System.reaches_of_observe (step twoPerKey) (ProperKeys twoPerKey)
    .new (oneKeyedSegment 5 7 ++ oneKeyedSegment 6 8) (fun m => m.disk.m3u8.map (keyed none))
    (b := some [(some ("live-0.key", 7), "live-0.ts"), (some ("live-0.key", 7), "live-1.ts")])
    (by decide +kernel)
  exact ⟨m, hrun, (readable_of_proper_runs twoPerKey rfl hrun).2, hkeyed⟩

/-- The segment that starts the key leaves the window, and its key line leaves the playlist. -/
theorem key_line_left_window :
    ∃ m, System.Reaches (step twoPerKey) System.anyStep .new m ∧
      m.disk.m3u8.map (keyed none) =
        some [(none, "live-1.ts"), (some ("live-2.key", 9), "live-2.ts")] ∧
      ¬ m.disk.Readable := by
  obtain ⟨m, hrun, -, hobserved⟩ := System.reaches_of_observe (step twoPerKey) System.anyStep
    .new (oneKeyedSegment 5 7 ++ oneKeyedSegment 6 8 ++ oneKeyedSegment 4 9)
    (fun m => decide (m.disk.m3u8.map (keyed none) =
      some [(none, "live-1.ts"), (some ("live-2.key", 9), "live-2.ts")] ∧
      (m.disk.files "live-1.ts").isSome)) (b := true) (by decide +kernel)
  obtain ⟨hkeyed, hthere⟩ := of_decide_eq_true hobserved
  refine ⟨m, hrun, hkeyed, ?_⟩
  intro hreadable
  obtain ⟨lines, hlines, hentries⟩ := Option.map_eq_some_iff.mp hkeyed
  obtain ⟨f, hf⟩ := Option.isSome_iff_exists.mp hthere
  have hentry : (none, "live-1.ts") ∈ keyed none lines := by
    rw [hentries]
    exact List.mem_cons_self ..
  obtain ⟨uri, iv, key, htag, -, -⟩ := hreadable lines hlines _ hentry f hf
  cases htag

end

end SrsChatRoom.App.HlsMuxer
