import Mathlib.Data.List.TakeWhile
import SrsChatRoom.App.Disposal

/-!
# Who is called back, and when

A removal that is stopped at a callback keeps a copy of the handlers, and `unsubs_` is what keeps
it from calling those that unsubscribed since. `clear` empties `unsubs_` when `removing_` says that
no removal is under way, but a removal inside a callback has set it back to `false` by then. And
`clear` does not wait for the removal of a resource to be through with its handlers.

* `Proper` - the steps that do not run into this;
* `Inv` - what holds between any two of them: the handlers that were subscribed since a resource
  was removed have been told exactly as much as the loops over the handlers say.
-/

namespace SrsChatRoom.App.Disposal

open ResourceManager

namespace World

variable {w : World} {h : Handler} {c : Resource}

/-- The resources of a `do_clear` that are not freed yet. -/
def held (w : World) : List Resource := w.pDisposing ++ w.freeing

/-- What a handler was told about a resource. -/
def told (w : World) (h : Handler) (c : Resource) : List Notice :=
  w.notices.filter fun n => n.handler = h ∧ n.resource = c

/-- A handler that a removal has still to call. -/
def Awaits (w : World) (h : Handler) (c : Resource) : Prop :=
  ∃ r ∈ w.removals, r.c = c ∧ h ∈ r.handlers

/-- A handler that is to be told that a resource is disposed. -/
def Undisposed (w : World) (h : Handler) (c : Resource) : Prop :=
  c ∈ w.manager.zombies ∨
    match w.clearing with
    | some (.disposing _ c' handlers left) => c ∈ left ∨ c = c' ∧ h ∈ handlers
    | _ => False

/-- Nothing is left to do. -/
def Idle (w : World) : Prop := w.manager.zombies = [] ∧ w.clearing = none

end World

/-- The steps that the callbacks are safe under: `clear` finds no removal that has still to call a
handler, unless that handler is unsubscribing and `removing_` is set, or the resource is no zombie
any more. And nobody removes a resource that is being freed. -/
def Proper (w : World) : Action → Prop
  | .clear =>
    ∀ r ∈ w.removals, ∀ h ∈ r.handlers,
      if h ∈ w.unsubs then w.removing = true else r.c ∉ w.manager.zombies
  | .remove _ c => c ∉ w.freeing
  | _ => True

/-! ## The invariant -/

/-- A copy of the handlers: nobody is in it who is not subscribed or unsubscribing. -/
structure Copy (handlers unsubs copy : List Handler) : Prop where
  known : ∀ h ∈ copy, h ∈ handlers ∨ h ∈ unsubs
  nodup : copy.Nodup

/-- Who is subscribed, and who may be called. -/
structure Subscribed (w : World) : Prop where
  nodup : w.handlers.Nodup
  nodupUnsubs : w.unsubs.Nodup
  disjoint : ∀ h ∈ w.handlers, h ∉ w.unsubs
  removals : ∀ r ∈ w.removals, Copy w.handlers w.unsubs r.handlers
  clearing : ∀ disposed c handlers left,
    w.clearing = some (.disposing disposed c handlers left) → Copy w.handlers w.unsubs handlers
  steady : ∀ c, ∀ h ∈ w.steady c, h ∈ w.handlers
  fresh : w.stale = []

/-- Where the removed resources are. -/
structure Accounted (w : World) : Prop where
  perm : w.removed.Perm (w.manager.zombies ++ w.held ++ w.freed)
  nodup : w.removed.Nodup
  removals : ∀ r ∈ w.removals, r.c ∈ w.removed
  once : (w.removals.map Removal.c).Nodup
  notices : ∀ n ∈ w.notices, n.resource ∈ w.removed

/-- What a handler was told, by what it is still to be told. -/
structure Expected (h : Handler) (c : Resource) (awaits undisposed : Prop) (told : List Notice) :
    Prop where
  awaiting : awaits → told = []
  between : ¬ awaits → undisposed → told = [.onBeforeDispose h c]
  disposed : ¬ undisposed → told = [.onBeforeDispose h c, .onDisposing h c]

theorem Expected.congr {h : Handler} {c : Resource} {p q p' q' : Prop} {l : List Notice}
    (hl : Expected h c p q l) (hp : p ↔ p') (hq : q ↔ q') : Expected h c p' q' l := by
  rw [← hp, ← hq]
  exact hl

/-- What the handlers were told that were subscribed since a resource was removed. -/
structure Told (w : World) : Prop where
  awaits : ∀ c, ∀ h ∈ w.steady c, w.Awaits h c → c ∈ w.manager.zombies
  told : ∀ c ∈ w.removed, ∀ h ∈ w.steady c,
    Expected h c (w.Awaits h c) (w.Undisposed h c) (w.told h c)

structure Inv (w : World) : Prop where
  subscribed : Subscribed w
  accounted : Accounted w
  told : Told w

/-! ## The next handler -/

section
variable {w : World} {handlers rest : List Handler} {h : Handler} {c : Resource}

theorem mem_unsubs_of_pending_nil (hpending : w.pending handlers = []) :
    ∀ x ∈ handlers, x ∈ w.unsubs := by
  intro x hx
  have hall := List.dropWhile_eq_nil_iff.mp hpending x hx
  exact of_decide_eq_true hall

theorem pending_cons (hpending : w.pending handlers = h :: rest) :
    ∃ skipped, handlers = skipped ++ h :: rest ∧ (∀ x ∈ skipped, x ∈ w.unsubs) ∧ h ∉ w.unsubs := by
  refine ⟨handlers.takeWhile (· ∈ w.unsubs), ?_, ?_, ?_⟩
  · rw [← hpending]
    exact (List.takeWhile_append_dropWhile ..).symm
  · intro x hx
    have hholds := List.mem_takeWhile_imp hx
    exact of_decide_eq_true hholds
  · have hhead := List.head?_dropWhile_not (fun x => decide (x ∈ w.unsubs)) handlers
    rw [World.pending] at hpending
    rw [hpending] at hhead
    simpa using hhead

/-- The loop over a copy calls a handler that is subscribed, and what is left is a copy. -/
theorem Copy.next (hcopy : Copy w.handlers w.unsubs handlers)
    (hpending : w.pending handlers = h :: rest) :
    h ∈ w.handlers ∧ h ∉ rest ∧ Copy w.handlers w.unsubs rest := by
  obtain ⟨skipped, rfl, -, hnot⟩ := pending_cons hpending
  have hnodup := (List.nodup_append.mp hcopy.nodup).2.1
  refine ⟨?_, (List.nodup_cons.mp hnodup).1, ?_, (List.nodup_cons.mp hnodup).2⟩
  · exact (hcopy.known h (by simp)).resolve_right hnot
  · intro x hx
    exact hcopy.known x (by simp [hx])

theorem mem_iff_of_pending {x : Handler} (hx : x ∉ w.unsubs)
    (hpending : w.pending handlers = h :: rest) : x ∈ handlers ↔ x = h ∨ x ∈ rest := by
  obtain ⟨skipped, rfl, hskipped, -⟩ := pending_cons hpending
  have : x ∉ skipped := fun hmem => hx (hskipped x hmem)
  simp [this]

/-! ## What the handlers were told -/

theorem told_call (w : World) (n : Notice) (h : Handler) (c : Resource) :
    (w.call n).told h c = w.told h c ++ if n.handler = h ∧ n.resource = c then [n] else [] := by
  by_cases hn : n.handler = h ∧ n.resource = c
  · simp [World.told, World.call, List.filter_append, hn]
  · simp [World.told, World.call, List.filter_append, hn]

theorem awaits_of_removals {r : Removal} {rs : List Removal} (hw : w.removals = r :: rs) :
    w.Awaits h c ↔ r.c = c ∧ h ∈ r.handlers ∨ ∃ r ∈ rs, r.c = c ∧ h ∈ r.handlers := by
  rw [World.Awaits, hw]
  exact List.exists_mem_cons_iff ..

end

/-! ## The loop of a removal -/

section
variable {w : World} {k : Coroutine} {c : Resource} {handlers : List Handler}

/-- A removal whose handlers are all unsubscribing is over. -/
theorem Inv.afterNotify (hw : Inv { w with removals := ⟨k, c, handlers⟩ :: w.removals })
    (hall : ∀ h ∈ handlers, h ∈ w.unsubs) : Inv { w with removing := false } := by
  have hsame : ∀ c', ∀ h ∈ w.steady c',
      (World.Awaits { w with removals := ⟨k, c, handlers⟩ :: w.removals } h c' ↔
        World.Awaits { w with removing := false } h c') := by
    intro c' h hh
    have hnot : h ∉ handlers := fun hmem =>
      hw.subscribed.disjoint h (hw.subscribed.steady c' h hh) (hall h hmem)
    simp [World.Awaits, hnot]
  constructor
  · exact { hw.subscribed with
      removals := fun r hr => hw.subscribed.removals r (List.mem_cons_of_mem _ hr) }
  · exact { hw.accounted with
      removals := fun r hr => hw.accounted.removals r (List.mem_cons_of_mem _ hr)
      once := (List.nodup_cons.mp hw.accounted.once).2 }
  · constructor
    · intro c' h hh hawaits
      exact hw.told.awaits c' h hh ((hsame c' h hh).mpr hawaits)
    · intro c' hc' h hh
      exact (hw.told.told c' hc' h hh).congr (hsame c' h hh) Iff.rfl

/-- The loop calls the next handler before the resource is disposed. -/
theorem Inv.duringNotify {h : Handler} {rest : List Handler}
    (hw : Inv { w with removals := ⟨k, c, handlers⟩ :: w.removals })
    (hpending : w.pending handlers = h :: rest) :
    Inv { w.call (.onBeforeDispose h c) with removals := ⟨k, c, rest⟩ :: w.removals } := by
  have hcopy : Copy w.handlers w.unsubs handlers :=
    hw.subscribed.removals ⟨k, c, handlers⟩ (List.mem_cons_self ..)
  obtain ⟨hmem, hnot, hrest⟩ := hcopy.next hpending
  -- no other removal is about this resource
  have hother : ∀ x, ¬ ∃ r ∈ w.removals, r.c = c ∧ x ∈ r.handlers := by
    rintro x ⟨r, hr, hc, -⟩
    apply (List.nodup_cons.mp hw.accounted.once).1
    show c ∈ w.removals.map Removal.c
    rw [← hc]
    exact List.mem_map_of_mem hr
  have hsame : ∀ c', ∀ x ∈ w.steady c', ¬ (x = h ∧ c' = c) →
      (World.Awaits { w with removals := ⟨k, c, handlers⟩ :: w.removals } x c' ↔
        World.Awaits { w with removals := ⟨k, c, rest⟩ :: w.removals } x c') := by
    intro c' x hx hne
    have hiff := mem_iff_of_pending
      (hw.subscribed.disjoint x (hw.subscribed.steady c' x hx)) hpending
    rw [awaits_of_removals rfl, awaits_of_removals rfl]
    show c = c' ∧ x ∈ handlers ∨ _ ↔ c = c' ∧ x ∈ rest ∨ _
    rw [hiff]
    constructor
    · rintro (⟨rfl, rfl | hin⟩ | hin)
      · exact absurd ⟨rfl, rfl⟩ hne
      · exact Or.inl ⟨rfl, hin⟩
      · exact Or.inr hin
    · rintro (⟨rfl, hin⟩ | hin)
      · exact Or.inl ⟨rfl, Or.inr hin⟩
      · exact Or.inr hin
  constructor
  · refine { hw.subscribed with removals := ?_, fresh := ?_ }
    · intro r hr
      obtain rfl | hr := List.mem_cons.mp hr
      · exact hrest
      · exact hw.subscribed.removals r (List.mem_cons_of_mem _ hr)
    · show (if h ∈ w.handlers then w.stale else _) = []
      rw [if_pos hmem]
      exact hw.subscribed.fresh
  · refine { hw.accounted with removals := ?_, notices := ?_ }
    · intro r hr
      obtain rfl | hr := List.mem_cons.mp hr
      · exact hw.accounted.removals ⟨k, c, handlers⟩ (List.mem_cons_self ..)
      · exact hw.accounted.removals r (List.mem_cons_of_mem _ hr)
    · intro n hn
      obtain hn | hn := List.mem_append.mp hn
      · exact hw.accounted.notices n hn
      · obtain rfl := List.mem_singleton.mp hn
        exact hw.accounted.removals ⟨k, c, handlers⟩ (List.mem_cons_self ..)
  · constructor
    · intro c' x hx hawaits
      by_cases hthis : x = h ∧ c' = c
      · obtain ⟨rfl, rfl⟩ := hthis
        exfalso
        obtain ⟨-, hin⟩ | hin := (awaits_of_removals rfl).mp hawaits
        · exact hnot hin
        · exact hother x hin
      · exact hw.told.awaits c' x hx ((hsame c' x hx hthis).mpr hawaits)
    · intro c' hc' x hx
      have htold := hw.told.told c' hc' x hx
      show Expected x c' _ _ ((w.call (.onBeforeDispose h c)).told x c')
      rw [told_call]
      by_cases hthis : x = h ∧ c' = c
      · obtain ⟨rfl, rfl⟩ := hthis
        have hbefore : World.Awaits { w with removals := ⟨k, c', handlers⟩ :: w.removals } x c' :=
          (awaits_of_removals rfl).mpr
            (Or.inl ⟨rfl, (mem_iff_of_pending
              (hw.subscribed.disjoint x hmem) hpending).mpr (Or.inl rfl)⟩)
        have hzombie : c' ∈ w.manager.zombies := hw.told.awaits c' x hx hbefore
        have hnone : w.told x c' = [] := htold.awaiting hbefore
        rw [hnone, if_pos ⟨rfl, rfl⟩]
        constructor
        · intro hawaits
          obtain ⟨-, hin⟩ | hin := (awaits_of_removals rfl).mp hawaits
          · exact absurd hin hnot
          · exact absurd hin (hother x)
        · intro _ _
          rfl
        · intro hdisposed
          exact absurd (Or.inl hzombie) hdisposed
      · have hno : ¬ (Notice.handler (.onBeforeDispose h c) = x ∧
            Notice.resource (.onBeforeDispose h c) = c') :=
          fun hboth => hthis ⟨hboth.1.symm, hboth.2.symm⟩
        rw [if_neg hno, List.append_nil]
        exact htold.congr (hsame c' x hx hthis) Iff.rfl

end

/-! ## The loop of a disposal -/

section
variable {w : World} {c : Resource} {handlers : List Handler} {disposed left : List Resource}

/-- The state of `do_clear` in front of its next zombie. -/
def World.before (w : World) (disposed : List Resource) : List Resource → World
  | [] => { w with clearing := some (.freeing disposed) }
  | c :: left => { w with clearing := some (.disposing disposed c w.handlers left) }

theorem Accounted.clearing (hw : Accounted w) {k : Option Clearing}
    (hheld : World.held { w with clearing := k } = w.held) :
    Accounted { w with clearing := k } := by
  refine { hw with perm := ?_ }
  show w.removed.Perm (w.manager.zombies ++ World.held { w with clearing := k } ++ w.freed)
  rw [hheld]
  exact hw.perm

/-- A resource of which all handlers are told is followed by the next one. -/
theorem Inv.afterDispose (hw : Inv { w with clearing := some (.disposing disposed c handlers left) })
    (hall : ∀ h ∈ handlers, h ∈ w.unsubs) : Inv (w.before (disposed ++ [c]) left) := by
  have hnot : ∀ c', ∀ h ∈ w.steady c', h ∉ handlers := fun c' h hh hmem =>
    hw.subscribed.disjoint h (hw.subscribed.steady c' h hh) (hall h hmem)
  cases left with
  | nil =>
    constructor
    · exact { hw.subscribed with clearing := fun _ _ _ _ hk => by cases hk }
    · apply hw.accounted.clearing
      simp [World.held, World.pDisposing, World.freeing]
    · refine { hw.told with told := ?_ }
      intro c' hc' h hh
      refine (hw.told.told c' hc' h hh).congr Iff.rfl ?_
      simp [World.Undisposed, World.before, hnot c' h hh]
  | cons next left =>
    constructor
    · refine { hw.subscribed with clearing := ?_ }
      intro _ _ _ _ hk
      cases hk
      exact ⟨fun h hh => Or.inl hh, hw.subscribed.nodup⟩
    · apply hw.accounted.clearing
      simp [World.held, World.pDisposing, World.freeing]
    · refine { hw.told with told := ?_ }
      intro c' hc' h hh
      refine (hw.told.told c' hc' h hh).congr Iff.rfl ?_
      have hsub : h ∈ w.handlers := hw.subscribed.steady c' h hh
      simp only [World.Undisposed, World.before, hnot c' h hh, hsub, List.mem_cons]
      tauto

/-- The loop calls the next handler after the removal is through with it. -/
theorem Inv.duringDispose {h : Handler} {rest : List Handler}
    (hw : Inv { w with clearing := some (.disposing disposed c handlers left) })
    (hpending : w.pending handlers = h :: rest) :
    Inv { w.call (.onDisposing h c) with
      clearing := some (.disposing disposed c rest left) } := by
  obtain ⟨hmem, hnot, hrest⟩ := (hw.subscribed.clearing _ _ _ _ rfl).next hpending
  have hheld : c ∈ World.held { w with clearing := some (.disposing disposed c handlers left) } := by
    simp [World.held, World.pDisposing]
  have hremoved : c ∈ w.removed := hw.accounted.perm.mem_iff.mpr (by simp [hheld])
  have hplaces : (w.manager.zombies ++ (disposed ++ c :: left) ++ w.freed).Nodup := by
    have hnodup := hw.accounted.perm.nodup_iff.mp hw.accounted.nodup
    simpa [World.held, World.pDisposing, World.freeing] using hnodup
  have hsame : ∀ c', ∀ x ∈ w.steady c', ¬ (x = h ∧ c' = c) →
      (World.Undisposed { w with clearing := some (.disposing disposed c handlers left) } x c' ↔
        World.Undisposed { w with clearing := some (.disposing disposed c rest left) } x c') := by
    intro c' x hx hne
    have hiff := mem_iff_of_pending
      (hw.subscribed.disjoint x (hw.subscribed.steady c' x hx)) hpending
    simp only [World.Undisposed, hiff]
    tauto
  constructor
  · refine { hw.subscribed with clearing := ?_, fresh := ?_ }
    · intro _ _ _ _ hk
      cases hk
      exact hrest
    · show (if h ∈ w.handlers then w.stale else _) = []
      rw [if_pos hmem]
      exact hw.subscribed.fresh
  · refine { hw.accounted with notices := ?_ }
    intro n hn
    obtain hn | hn := List.mem_append.mp hn
    · exact hw.accounted.notices n hn
    · obtain rfl := List.mem_singleton.mp hn
      exact hremoved
  · refine { hw.told with told := ?_ }
    intro c' hc' x hx
    have htold := hw.told.told c' hc' x hx
    show Expected x c' _ _ ((w.call (.onDisposing h c)).told x c')
    rw [told_call]
    by_cases hthis : x = h ∧ c' = c
    · obtain ⟨rfl, rfl⟩ := hthis
      have hzombie : c' ∉ w.manager.zombies := by
        intro hz
        rw [List.append_assoc] at hplaces
        exact (List.disjoint_of_nodup_append hplaces) hz (by simp)
      have hleft : c' ∉ left := by
        have hmid := (List.nodup_append.mp (List.nodup_append.mp hplaces).1).2.1
        exact (List.nodup_cons.mp (List.nodup_append.mp hmid).2.1).1
      have hbefore : World.Undisposed
          { w with clearing := some (.disposing disposed c' handlers left) } x c' :=
        Or.inr (Or.inr ⟨rfl, (mem_iff_of_pending
          (hw.subscribed.disjoint x hmem) hpending).mpr (Or.inl rfl)⟩)
      have hthrough : ¬ w.Awaits x c' := fun hawaits => hzombie (hw.told.awaits c' x hx hawaits)
      have hone : w.told x c' = [.onBeforeDispose x c'] := htold.between hthrough hbefore
      rw [hone, if_pos ⟨rfl, rfl⟩]
      constructor
      · intro hawaits
        exact absurd hawaits hthrough
      · intro _ hundisposed
        obtain hin | hin | ⟨-, hin⟩ := hundisposed
        · exact absurd hin hzombie
        · exact absurd hin hleft
        · exact absurd hin hnot
      · intro _
        rfl
    · have hno : ¬ (Notice.handler (.onDisposing h c) = x ∧
          Notice.resource (.onDisposing h c) = c') :=
        fun hboth => hthis ⟨hboth.1.symm, hboth.2.symm⟩
      rw [if_neg hno, List.append_nil]
      exact htold.congr Iff.rfl (hsame c' x hx hthis)

end

/-! ## The steps -/

section
variable {w t : World}

theorem zombies_dispose (m : SrsResourceManager) (c : Resource) :
    (m.dispose c).zombies = m.zombies := by
  have hfold : ∀ (ids : List UInt64) (m : SrsResourceManager),
      (ids.foldl SrsResourceManager.releaseId m).zombies = m.zombies := by
    intro ids
    induction ids with
    | nil => intro m; rfl
    | cons id ids ih => intro m; exact ih (m.releaseId id)
  exact hfold (m.fastIdsOf c) (m.unbindNames c)

/-- The invariant only looks at the zombies of the manager. -/
theorem Inv.manager (hw : Inv w) {m : SrsResourceManager} (hm : m.zombies = w.manager.zombies) :
    Inv { w with manager := m } := by
  constructor
  · exact { hw.subscribed with }
  · refine { hw.accounted with perm := ?_ }
    show w.removed.Perm (m.zombies ++ w.held ++ w.freed)
    rw [hm]
    exact hw.accounted.perm
  · constructor
    · intro c h hh hawaits
      show c ∈ m.zombies
      rw [hm]
      exact hw.told.awaits c h hh hawaits
    · intro c hc h hh
      refine (hw.told.told c hc h hh).congr Iff.rfl ?_
      simp only [World.Undisposed, hm]

variable {c : Resource} {handlers : List Handler}

variable {k : Coroutine}

theorem Inv.notify
    (hw : Inv { w with removals := ⟨k, c, handlers⟩ :: w.removals }) :
    Inv (w.notify k c handlers) := by
  unfold World.notify
  split
  · next hpending => exact hw.afterNotify (mem_unsubs_of_pending_nil hpending)
  · next hpending => exact hw.duringNotify hpending

variable {disposed : List Resource}

theorem Inv.disposeFrom {left : List Resource} (hw : Inv (w.before disposed left)) :
    Inv (w.disposeFrom disposed left) := by
  induction left generalizing w disposed with
  | nil => exact hw
  | cons c left ih =>
    have hdisposed := hw.manager (zombies_dispose w.manager c)
    simp only [World.disposeFrom]
    split
    · next hpending => exact ih (hdisposed.afterDispose (mem_unsubs_of_pending_nil hpending))
    · next hpending => exact hdisposed.duringDispose hpending

theorem Inv.resume {left : List Resource}
    (hw : Inv { w with clearing := some (.disposing disposed c handlers left) }) :
    Inv (w.resume disposed c handlers left) := by
  unfold World.resume
  split
  · next hpending => exact (hw.afterDispose (mem_unsubs_of_pending_nil hpending)).disposeFrom
  · next hpending => exact hw.duringDispose hpending

/-- A change of the subscriptions that keeps whom a loop may meet. -/
theorem Copy.mono {unsubs handlers' unsubs' copy : List Handler} (hcopy : Copy handlers unsubs copy)
    (h : ∀ x, x ∈ handlers ∨ x ∈ unsubs → x ∈ handlers' ∨ x ∈ unsubs') :
    Copy handlers' unsubs' copy :=
  ⟨fun x hx => h x (hcopy.known x hx), hcopy.nodup⟩

theorem mem_subscribe (w : World) (h x : Handler) :
    x ∈ (w.subscribe h).handlers ↔ x ∈ w.handlers ∨ x = h := by
  simp only [World.subscribe]
  split
  · next hin =>
    constructor
    · exact Or.inl
    · rintro (hx | rfl)
      · exact hx
      · exact hin
  · simp

theorem mem_unsubscribe (w : World) (h x : Handler) :
    x ∈ (w.unsubscribe h).unsubs ↔ x ∈ w.unsubs ∨ x = h := by
  simp only [World.unsubscribe]
  split
  · next hin =>
    constructor
    · exact Or.inl
    · rintro (hx | rfl)
      · exact hx
      · exact hin
  · simp

theorem Inv.subscribe (hw : Inv w) (h : Handler) : Inv (w.subscribe h) := by
  have hsubs := hw.subscribed
  have hkeep : ∀ x, x ∈ w.handlers ∨ x ∈ w.unsubs →
      x ∈ (w.subscribe h).handlers ∨ x ∈ (w.subscribe h).unsubs := by
    intro x hx
    rw [mem_subscribe]
    by_cases hxh : x = h
    · exact Or.inl (Or.inr hxh)
    · obtain hin | hin := hx
      · exact Or.inl (Or.inl hin)
      · exact Or.inr ((List.mem_erase_of_ne hxh).mpr hin)
  constructor
  · constructor
    · show (if h ∈ w.handlers then w.handlers else w.handlers ++ [h]).Nodup
      split
      · exact hsubs.nodup
      · next hnot => exact List.nodup_append.mpr ⟨hsubs.nodup, by simp, by
          intro x hx y hy hxy
          obtain rfl := List.mem_singleton.mp hy
          exact hnot (hxy ▸ hx)⟩
    · exact hsubs.nodupUnsubs.erase h
    · intro x hx hin
      obtain hx | rfl := (mem_subscribe w h x).mp hx
      · exact hsubs.disjoint x hx (List.mem_of_mem_erase hin)
      · exact hsubs.nodupUnsubs.not_mem_erase hin
    · exact fun r hr => (hsubs.removals r hr).mono hkeep
    · exact fun _ _ _ _ hk => (hsubs.clearing _ _ _ _ hk).mono hkeep
    · exact fun c x hx => (mem_subscribe w h x).mpr (Or.inl (hsubs.steady c x hx))
    · exact hsubs.fresh
  · exact { hw.accounted with }
  · exact { hw.told with }

theorem Inv.unsubscribe (hw : Inv w) (h : Handler) : Inv (w.unsubscribe h) := by
  have hsubs := hw.subscribed
  have hkeep : ∀ x, x ∈ w.handlers ∨ x ∈ w.unsubs →
      x ∈ (w.unsubscribe h).handlers ∨ x ∈ (w.unsubscribe h).unsubs := by
    intro x hx
    rw [mem_unsubscribe]
    by_cases hxh : x = h
    · exact Or.inr (Or.inr hxh)
    · obtain hin | hin := hx
      · exact Or.inl ((List.mem_erase_of_ne hxh).mpr hin)
      · exact Or.inr (Or.inl hin)
  have hsteady : ∀ c x, x ∈ (w.unsubscribe h).steady c → x ∈ w.steady c ∧ x ≠ h := by
    intro c x hx
    have hx := List.mem_filter.mp hx
    exact ⟨hx.1, of_decide_eq_true hx.2⟩
  constructor
  · constructor
    · exact hsubs.nodup.erase h
    · show (if h ∈ w.unsubs then w.unsubs else w.unsubs ++ [h]).Nodup
      split
      · exact hsubs.nodupUnsubs
      · next hnot => exact List.nodup_append.mpr ⟨hsubs.nodupUnsubs, by simp, by
          intro x hx y hy hxy
          obtain rfl := List.mem_singleton.mp hy
          exact hnot (hxy ▸ hx)⟩
    · intro x hx hin
      obtain hin | rfl := (mem_unsubscribe w h x).mp hin
      · exact hsubs.disjoint x (List.mem_of_mem_erase hx) hin
      · exact hsubs.nodup.not_mem_erase hx
    · exact fun r hr => (hsubs.removals r hr).mono hkeep
    · exact fun _ _ _ _ hk => (hsubs.clearing _ _ _ _ hk).mono hkeep
    · intro c x hx
      obtain ⟨hx, hne⟩ := hsteady c x hx
      exact (List.mem_erase_of_ne hne).mpr (hsubs.steady c x hx)
    · exact hsubs.fresh
  · exact { hw.accounted with }
  · constructor
    · exact fun c x hx => hw.told.awaits c x (hsteady c x hx).1
    · exact fun c hc x hx => hw.told.told c hc x (hsteady c x hx).1

/-- The state of `remove(c)` in front of its first handler. -/
def World.started (w : World) (k : Coroutine) (c : Resource) : World :=
  { w.bury c with
    removing := true
    removals := ⟨k, c, w.handlers⟩ :: w.removals }

/-- A removal that is not ignored starts with all handlers. -/
theorem Inv.started (hw : Inv w) (k : Coroutine) (hzombie : c ∉ w.manager.zombies)
    (hheld : c ∉ w.held) (hfreed : c ∉ w.freed) :
    Inv (w.started k c) := by
  have hnew : c ∉ w.removed := by
    intro hin
    have hin := hw.accounted.perm.mem_iff.mp hin
    simp only [List.mem_append, hzombie, hheld, hfreed, or_self] at hin
  have hzombies : (w.manager.remove c).zombies = w.manager.zombies ++ [c] := by
    simp [SrsResourceManager.remove, hzombie]
  have hsteady : ∀ c', c' ≠ c → (w.bury c).steady c' = w.steady c' :=
    fun c' hne => Function.update_of_ne hne ..
  have hsame : (w.bury c).steady c = w.handlers := Function.update_self ..
  constructor
  · refine { hw.subscribed with removals := ?_, steady := ?_ }
    · intro r hr
      obtain rfl | hr := List.mem_cons.mp hr
      · exact ⟨fun x hx => Or.inl hx, hw.subscribed.nodup⟩
      · exact hw.subscribed.removals r hr
    · intro c' x hx
      change x ∈ (w.bury c).steady c' at hx
      show x ∈ w.handlers
      by_cases hc : c' = c
      · rw [hc, hsame] at hx
        exact hx
      · rw [hsteady c' hc] at hx
        exact hw.subscribed.steady c' x hx
  · constructor
    · show (c :: w.removed).Perm ((w.manager.remove c).zombies ++ w.held ++ w.freed)
      rw [hzombies]
      simp only [List.append_assoc, List.singleton_append]
      refine (List.Perm.cons c ?_).trans List.perm_middle.symm
      have hperm := hw.accounted.perm
      rw [List.append_assoc] at hperm
      exact hperm
    · exact List.nodup_cons.mpr ⟨hnew, hw.accounted.nodup⟩
    · intro r hr
      obtain rfl | hr := List.mem_cons.mp hr
      · exact List.mem_cons_self ..
      · exact List.mem_cons_of_mem _ (hw.accounted.removals r hr)
    · refine List.nodup_cons.mpr ⟨?_, hw.accounted.once⟩
      intro hin
      obtain ⟨r, hr, hc⟩ := List.mem_map.mp hin
      change r.c = c at hc
      rw [← hc] at hnew
      exact hnew (hw.accounted.removals r hr)
    · exact fun n hn => List.mem_cons_of_mem _ (hw.accounted.notices n hn)
  · constructor
    · intro c' x hx hawaits
      show c' ∈ (w.manager.remove c).zombies
      rw [hzombies, List.mem_append]
      obtain ⟨hc, -⟩ | hold := (awaits_of_removals rfl).mp hawaits
      · exact Or.inr (List.mem_singleton.mpr hc.symm)
      · by_cases hc : c' = c
        · exact Or.inr (List.mem_singleton.mpr hc)
        · change x ∈ (w.bury c).steady c' at hx
          rw [hsteady c' hc] at hx
          exact Or.inl (hw.told.awaits c' x hx hold)
    · intro c' hc' x hx
      change x ∈ (w.bury c).steady c' at hx
      show Expected x c' _ _ (w.told x c')
      by_cases hc : c' = c
      · obtain rfl := hc
        rw [hsame] at hx
        have hnone : w.told x c' = [] := by
          apply List.filter_eq_nil_iff.mpr
          intro n hn htold
          have hin := hw.accounted.notices n hn
          rw [(of_decide_eq_true htold).2] at hin
          exact hnew hin
        rw [hnone]
        constructor
        · intro _
          rfl
        · intro hno
          have hawaits : (w.started k c').Awaits x c' :=
            (awaits_of_removals rfl).mpr (Or.inl ⟨rfl, hx⟩)
          exact absurd hawaits hno
        · intro hno
          have hin : c' ∈ (w.manager.remove c').zombies := by simp [hzombies]
          exact absurd (Or.inl hin) hno
      · rw [hsteady c' hc] at hx
        have hremoved : c' ∈ w.removed := (List.mem_cons.mp hc').resolve_left hc
        refine (hw.told.told c' hremoved x hx).congr ?_ ?_
        · have hiff : (w.started k c).Awaits x c' ↔ _ := awaits_of_removals rfl
          rw [hiff]
          show w.Awaits x c' ↔ c = c' ∧ _ ∨ w.Awaits x c'
          simp [Ne.symm hc]
        · have hiff : c' ∈ w.manager.zombies ↔ c' ∈ (w.manager.remove c).zombies := by
            simp [hzombies, hc]
          show (c' ∈ w.manager.zombies ∨ _) ↔ (c' ∈ (w.manager.remove c).zombies ∨ _)
          rw [hiff]
          exact Iff.rfl

theorem Inv.remove (hw : Inv w) (k : Coroutine) (hfreed : c ∉ w.freed)
    (hfreeing : c ∉ w.freeing) : Inv (w.remove k c) := by
  simp only [World.remove]
  split
  · exact ⟨{ hw.subscribed with }, { hw.accounted with }, { hw.told with }⟩
  · next hignored =>
    have hno : ¬ (c ∈ w.manager.zombies ∨ c ∈ w.pDisposing) := fun h => hignored (decide_eq_true h)
    have hheld : c ∉ w.held := by
      simp only [World.held, List.mem_append]
      tauto
    exact Inv.notify (hw.started k (fun h => hno (Or.inl h)) hheld hfreed)

/-- `clear` takes the zombies, and no handler is lost that a loop may still meet. -/
theorem Inv.clear (hw : Inv w) (hproper : Proper w .clear) (ht : w.clear = some t) : Inv t := by
  simp only [World.clear] at ht
  split at ht
  · cases ht
  · next hready =>
    obtain ⟨hnone, hzombies⟩ := not_or.mp hready
    have hclearing : w.clearing = none := by simpa using hnone
    obtain rfl := Option.some.inj ht
    obtain ⟨c, left, hcons⟩ := List.exists_cons_of_ne_nil hzombies
    apply Inv.disposeFrom
    rw [hcons]
    -- the handlers that a removal has still to call
    have hsteady : ∀ c', ∀ h ∈ w.steady c', ¬ w.Awaits h c' := by
      intro c' h hh hawaits
      have hzombie := hw.told.awaits c' h hh hawaits
      obtain ⟨r, hr, rfl, hin⟩ := hawaits
      have hguard := hproper r hr h hin
      rw [if_neg (hw.subscribed.disjoint h (hw.subscribed.steady r.c h hh))] at hguard
      exact hguard hzombie
    have hunsubs : ∃ unsubs, (if w.removing then w else { w with unsubs := [] })
        = { w with unsubs := unsubs } ∧ unsubs.Nodup ∧ (∀ h ∈ w.handlers, h ∉ unsubs) ∧
          ∀ r ∈ w.removals, Copy w.handlers unsubs r.handlers := by
      split
      · exact ⟨w.unsubs, rfl, hw.subscribed.nodupUnsubs, hw.subscribed.disjoint,
          hw.subscribed.removals⟩
      · next hremoving =>
        refine ⟨[], rfl, List.nodup_nil, fun _ _ => List.not_mem_nil, fun r hr => ?_⟩
        refine ⟨fun h hh => Or.inl ?_, (hw.subscribed.removals r hr).nodup⟩
        obtain hin | hin := (hw.subscribed.removals r hr).known h hh
        · exact hin
        · have hguard := hproper r hr h hh
          rw [if_pos hin] at hguard
          exact absurd hguard hremoving
    obtain ⟨unsubs, heq, hnodup, hdisjoint, hcopies⟩ := hunsubs
    rw [heq]
    constructor
    · refine { hw.subscribed with
        nodupUnsubs := hnodup, disjoint := hdisjoint, removals := hcopies, clearing := ?_ }
      intro _ _ _ _ hk
      cases hk
      exact ⟨fun h hh => Or.inl hh, hw.subscribed.nodup⟩
    · refine { hw.accounted with perm := ?_ }
      have hperm := hw.accounted.perm
      simp only [World.held, World.pDisposing, World.freeing, hclearing, hcons] at hperm
      simpa [World.before, World.held, World.pDisposing, World.freeing] using hperm
    · constructor
      · exact fun c' h hh hawaits => absurd hawaits (hsteady c' h hh)
      · intro c' hc' h hh
        refine (hw.told.told c' hc' h hh).congr Iff.rfl ?_
        have hsub : h ∈ w.handlers := hw.subscribed.steady c' h hh
        simp only [World.Undisposed, World.before, hclearing, hcons, hsub, List.mem_cons,
          List.not_mem_nil]
        tauto

/-- The freeing loop only moves resources that all handlers are told of. -/
theorem Inv.free (hw : Inv w) {left left' freed : List Resource} {k : Option Clearing}
    (hk : w.clearing = some (.freeing left))
    (hk' : ∀ disposed c handlers left, k ≠ some (.disposing disposed c handlers left))
    (hleft : World.freeing { w with clearing := k } = left')
    (hperm : (left' ++ freed).Perm (left ++ w.freed)) :
    Inv { w with freed := freed, clearing := k } := by
  have hdone : ∀ h c, World.Undisposed { w with freed := freed, clearing := k } h c ↔
      w.Undisposed h c := by
    intro h c
    rw [World.Undisposed, World.Undisposed, hk]
    cases k with
    | none => exact Iff.rfl
    | some k =>
      cases k with
      | disposing disposed c handlers left => exact absurd rfl (hk' disposed c handlers left)
      | freeing left => exact Iff.rfl
  have hheld : World.held { w with freed := freed, clearing := k } = left' := by
    rw [← hleft]
    cases k with
    | none => rfl
    | some k =>
      cases k with
      | disposing disposed c handlers left => exact absurd rfl (hk' disposed c handlers left)
      | freeing left => rfl
  have hold : w.held = left := by simp [World.held, World.pDisposing, World.freeing, hk]
  constructor
  · exact { hw.subscribed with clearing := fun _ _ _ _ h => absurd h (hk' _ _ _ _) }
  · refine { hw.accounted with perm := ?_ }
    show w.removed.Perm (w.manager.zombies ++ World.held _ ++ freed)
    rw [hheld, List.append_assoc]
    refine hw.accounted.perm.trans ?_
    rw [hold, List.append_assoc]
    exact hperm.symm.append_left _
  · refine { hw.told with told := ?_ }
    intro c hc h hh
    exact (hw.told.told c hc h hh).congr Iff.rfl (hdone h c).symm

theorem Inv.proceed (hw : Inv w) (ht : w.proceed = some t) : Inv t := by
  unfold World.proceed at ht
  split at ht
  · cases ht
  · next hk =>
    cases ht
    apply Inv.resume
    rw [← hk]
    exact hw
  · next hk =>
    cases ht
    exact @Inv.free w hw [] [] w.freed none hk (fun _ _ _ _ h => by cases h) rfl (List.Perm.refl _)
  · next c left hk =>
    cases ht
    exact @Inv.free w hw (c :: left) left (c :: w.freed) (some (.freeing left)) hk
      (fun _ _ _ _ h => by cases h) rfl List.perm_middle

variable {removals : List Removal}

/-- The order of the stopped removals does not matter. -/
theorem Inv.permute (hw : Inv w) (hperm : removals.Perm w.removals) :
    Inv { w with removals := removals } := by
  have hawaits : ∀ h c, World.Awaits { w with removals := removals } h c ↔ w.Awaits h c := by
    intro h c
    constructor
    · rintro ⟨r, hr, hrest⟩
      exact ⟨r, hperm.mem_iff.mp hr, hrest⟩
    · rintro ⟨r, hr, hrest⟩
      exact ⟨r, hperm.mem_iff.mpr hr, hrest⟩
  constructor
  · exact { hw.subscribed with
      removals := fun r hr => hw.subscribed.removals r (hperm.mem_iff.mp hr) }
  · exact { hw.accounted with
      removals := fun r hr => hw.accounted.removals r (hperm.mem_iff.mp hr)
      once := (hperm.map _).nodup_iff.mpr hw.accounted.once }
  · constructor
    · exact fun c h hh hawait => hw.told.awaits c h hh ((hawaits h c).mp hawait)
    · exact fun c hc h hh =>
        (hw.told.told c hc h hh).congr (hawaits h c).symm Iff.rfl

/-- The removal that a coroutine goes on with is one of the stopped ones. -/
theorem perm_of_find {r : Removal} (hr : removals.find? (·.coroutine = k) = some r) :
    removals.Perm (⟨k, r.c, r.handlers⟩ :: removals.eraseP (·.coroutine = k)) := by
  obtain ⟨hk, before, after, rfl, hbefore⟩ := List.find?_eq_some_iff_append.mp hr
  obtain rfl := of_decide_eq_true hk
  have hnot : ∀ r' ∈ before, ¬ decide (r'.coroutine = r.coroutine) = true := by
    intro r' hr'
    simpa using hbefore r' hr'
  rw [List.eraseP_append_right _ hnot,
    @List.eraseP_cons_of_pos _ r after (fun r' => decide (r'.coroutine = r.coroutine)) hk]
  exact List.perm_middle

theorem Inv.ret (hw : Inv w) (ht : w.ret k = some t) : Inv t := by
  unfold World.ret at ht
  split at ht
  · next r hr =>
    cases ht
    apply Inv.notify
    exact hw.permute (perm_of_find hr).symm
  · split at ht
    · exact hw.proceed ht
    · cases ht

theorem Inv.step (hw : Inv w) {a : Action} (hproper : Proper w a) (ht : step w a = some t) :
    Inv t := by
  cases a with
  | subscribe h =>
    cases ht
    exact hw.subscribe h
  | unsubscribe h =>
    cases ht
    exact hw.unsubscribe h
  | remove k c =>
    simp only [Disposal.step] at ht
    split at ht
    · cases ht
    · next hfreed =>
      cases ht
      exact hw.remove k hfreed hproper
  | clear => exact hw.clear hproper ht
  | ret k => exact hw.ret ht

end

/-! ## Coming to rest -/

section
variable {w : World}

/-- The callbacks that are still to come, and the resources that are still to be freed, if nobody
subscribes and nothing is removed any more. -/
def Clearing.work (subscribed : ℕ) : Clearing → ℕ
  | .disposing disposed _ handlers left =>
    handlers.length + left.length * (subscribed + 3) + disposed.length + 4
  | .freeing left => left.length + 1

def World.work (w : World) : ℕ :=
  (w.removals.map fun r => r.handlers.length + 1).sum +
    (w.clearing.elim 0 (Clearing.work w.handlers.length)) +
    w.manager.zombies.length * (w.handlers.length + 5)

theorem length_of_pending {handlers rest : List Handler} {h : Handler}
    (hpending : w.pending handlers = h :: rest) : rest.length + 1 ≤ handlers.length := by
  obtain ⟨skipped, rfl, -, -⟩ := pending_cons hpending
  simp

theorem removed_notify (k : Coroutine) (c : Resource) (handlers : List Handler) :
    (w.notify k c handlers).removed = w.removed := by
  unfold World.notify
  split <;> rfl

theorem work_notify (k : Coroutine) (c : Resource) (handlers : List Handler) :
    (w.notify k c handlers).work < w.work + (handlers.length + 1) := by
  unfold World.notify
  split
  · show w.work < _
    omega
  · next h rest hpending =>
    have hlength := length_of_pending hpending
    show (List.map _ (⟨k, c, rest⟩ :: w.removals)).sum + _ + _ < _
    rw [List.map_cons, List.sum_cons]
    show rest.length + 1 + _ + _ + _ < w.work + _
    rw [World.work]
    show rest.length + 1 + _ + w.clearing.elim 0 (Clearing.work w.handlers.length) +
      w.manager.zombies.length * (w.handlers.length + 5) < _
    omega

/-- `do_clear` from some zombie on: it removes nothing, and what it leaves is less work. -/
theorem disposeFrom_work (disposed left : List Resource) :
    (w.disposeFrom disposed left).removed = w.removed ∧
      (w.disposeFrom disposed left).work ≤
        (w.removals.map fun r => r.handlers.length + 1).sum +
          (disposed.length + left.length * (w.handlers.length + 3) + 1) +
          w.manager.zombies.length * (w.handlers.length + 5) := by
  induction left generalizing w disposed with
  | nil => exact ⟨rfl, by simp [World.disposeFrom, World.work, Clearing.work]⟩
  | cons c left ih =>
    simp only [World.disposeFrom]
    split
    · obtain ⟨hremoved, hwork⟩ := @ih { w with manager := w.manager.dispose c } (disposed ++ [c])
      refine ⟨hremoved, hwork.trans ?_⟩
      simp only [zombies_dispose, List.length_append, List.length_cons, List.length_nil]
      nlinarith
    · next h rest hpending =>
      have hlength := length_of_pending hpending
      refine ⟨rfl, ?_⟩
      simp only [World.work, World.call, Option.elim, Clearing.work, zombies_dispose,
        List.length_cons] at hlength ⊢
      nlinarith

theorem resume_work (disposed : List Resource) (c : Resource) (handlers : List Handler)
    (left : List Resource) (hk : w.clearing = some (.disposing disposed c handlers left)) :
    (w.resume disposed c handlers left).removed = w.removed ∧
      (w.resume disposed c handlers left).work < w.work := by
  have hnow : w.work = (w.removals.map fun r => r.handlers.length + 1).sum +
      (handlers.length + left.length * (w.handlers.length + 3) + disposed.length + 4) +
      w.manager.zombies.length * (w.handlers.length + 5) := by
    rw [World.work, hk]
    rfl
  unfold World.resume
  split
  · obtain ⟨hremoved, hwork⟩ := @disposeFrom_work w (disposed ++ [c]) left
    refine ⟨hremoved, ?_⟩
    rw [List.length_append, List.length_singleton] at hwork
    omega
  · next h rest hpending =>
    have hlength := length_of_pending hpending
    refine ⟨rfl, ?_⟩
    rw [hnow]
    simp only [World.work, World.call, Option.elim, Clearing.work]
    omega

theorem ret_work {r : Removal} {rs : List Removal} (hw : w.removals = r :: rs) :
    ∃ t, w.ret r.coroutine = some t ∧ t.removed = w.removed ∧ t.work < w.work := by
  have hfind : w.removals.find? (fun r' => decide (r'.coroutine = r.coroutine)) = some r := by
    rw [hw]
    exact List.find?_cons_of_pos (decide_eq_true rfl)
  have herase : w.removals.eraseP (fun r' => decide (r'.coroutine = r.coroutine)) = rs := by
    rw [hw]
    exact List.eraseP_cons_of_pos (decide_eq_true rfl)
  refine ⟨({ w with removals := rs }).notify r.coroutine r.c r.handlers, ?_, ?_, ?_⟩
  · rw [World.ret, hfind, herase]
  · exact removed_notify ..
  · refine (work_notify ..).trans_le (le_of_eq ?_)
    simp only [World.work, hw, List.map_cons, List.sum_cons]
    omega

theorem proceed_work {k : Clearing} (hk : w.clearing = some k) :
    ∃ t, w.proceed = some t ∧ t.removed = w.removed ∧ t.work < w.work := by
  cases k with
  | disposing disposed c handlers left =>
    refine ⟨w.resume disposed c handlers left, ?_, resume_work disposed c handlers left hk⟩
    rw [World.proceed, hk]
  | freeing left =>
    cases left with
    | nil =>
      refine ⟨{ w with clearing := none }, ?_, rfl, ?_⟩
      · rw [World.proceed, hk]
      · simp [World.work, hk, Clearing.work]
    | cons c left =>
      refine ⟨{ w with freed := c :: w.freed, clearing := some (.freeing left) }, ?_, rfl, ?_⟩
      · rw [World.proceed, hk]
      · simp [World.work, hk, Clearing.work]

theorem clear_work (hk : w.clearing = none) (hzombies : w.manager.zombies ≠ []) :
    ∃ t, w.clear = some t ∧ t.removed = w.removed ∧ t.work < w.work := by
  have hlength : 0 < w.manager.zombies.length := List.length_pos_iff.mpr hzombies
  have hunsubs : ∃ unsubs, (if w.removing then w else { w with unsubs := [] })
      = { w with unsubs := unsubs } := by
    split
    · exact ⟨w.unsubs, rfl⟩
    · exact ⟨[], rfl⟩
  obtain ⟨unsubs, hunsubs⟩ := hunsubs
  have hdone := @disposeFrom_work { w with
    unsubs := unsubs, manager := { w.manager with zombies := [] } } [] w.manager.zombies
  refine ⟨_, ?_, hdone.1, hdone.2.trans_lt ?_⟩
  · have hready : ¬ (w.clearing.isSome = true ∨ w.manager.zombies = []) := by simp [hk, hzombies]
    rw [World.clear, if_neg hready]
    simp only [hunsubs]
  · simp only [World.work, hk, Option.elim, List.length_nil]
    nlinarith

/-- As long as there is something to do, some coroutine can do a part of it. -/
theorem exists_step (hbusy : w.removals ≠ [] ∨ ¬ w.Idle) :
    ∃ a t, Proper w a ∧ step w a = some t ∧ t.removed = w.removed ∧ t.work < w.work := by
  cases hremovals : w.removals with
  | cons r rs =>
    obtain ⟨t, ht, hdone⟩ := ret_work hremovals
    exact ⟨.ret r.coroutine, t, trivial, ht, hdone⟩
  | nil =>
    cases hk : w.clearing with
    | some k =>
      obtain ⟨t, ht, hdone⟩ := proceed_work hk
      refine ⟨.ret 0, t, trivial, ?_, hdone⟩
      show w.ret 0 = some t
      rw [World.ret, hremovals]
      exact ht
    | none =>
      have hzombies : w.manager.zombies ≠ [] := fun hnil =>
        hbusy.elim (fun h => h hremovals) fun h => h ⟨hnil, hk⟩
      obtain ⟨t, ht, hdone⟩ := clear_work hk hzombies
      refine ⟨.clear, t, ?_, ht, hdone⟩
      intro r hr
      rw [hremovals] at hr
      cases hr

/-- From every state the callbacks can return until nothing is left to do. -/
theorem exists_idle (w : World) :
    ∃ t, System.Reaches step Proper w t ∧ t.removals = [] ∧ t.Idle ∧ t.removed = w.removed := by
  induction hn : w.work using Nat.strong_induction_on generalizing w with
  | _ n ih =>
    by_cases hbusy : w.removals ≠ [] ∨ ¬ w.Idle
    · obtain ⟨a, u, hproper, hu, hremoved, hwork⟩ := exists_step hbusy
      obtain ⟨t, hrun, hremovals, hidle, ht⟩ := ih u.work (hn ▸ hwork) u rfl
      exact ⟨t, Relation.ReflTransGen.head ⟨a, hproper, hu⟩ hrun, hremovals, hidle,
        ht.trans hremoved⟩
    · obtain ⟨hremovals, hidle⟩ := not_or.mp hbusy
      exact ⟨w, Relation.ReflTransGen.refl, not_not.mp hremovals, not_not.mp hidle, rfl⟩

end

/-! ## Runs -/

section
variable {w : World}

theorem inv_new : Inv World.new := by
  constructor
  · constructor <;> simp [World.new]
  · constructor <;> simp [World.new, World.held, World.pDisposing, World.freeing,
      SrsResourceManager.new]
  · constructor <;> simp [World.new]

theorem Inv.reaches (hrun : System.Reaches Disposal.step Proper .new w) : Inv w :=
  System.Reaches.invariant (fun _ _ _ hw hproper ht => hw.step hproper ht) hrun inv_new

/-- What the callbacks promise: no handler is called that is not subscribed, a resource is freed
at most once and only if it was removed, all removed resources are freed when nothing is left to
do, and a handler that is subscribed since the removal is told of each resource in order, all of
it before the resource is freed. -/
structure Safe (w : World) : Prop where
  fresh : w.stale = []
  once : w.freed.Nodup
  removed : ∀ c ∈ w.freed, c ∈ w.removed
  idle : w.Idle → ∀ c ∈ w.removed, c ∈ w.freed
  told : ∀ c ∈ w.removed, ∀ h ∈ w.steady c,
    w.told h c <+: [.onBeforeDispose h c, .onDisposing h c]
  freed : ∀ c ∈ w.freed, ∀ h ∈ w.steady c,
    w.told h c = [.onBeforeDispose h c, .onDisposing h c]

theorem Expected.isPrefix {h : Handler} {c : Resource} {p q : Prop} {l : List Notice}
    (hl : Expected h c p q l) : l <+: [.onBeforeDispose h c, .onDisposing h c] := by
  by_cases hq : q
  · by_cases hp : p
    · rw [hl.awaiting hp]
      exact List.nil_prefix
    · rw [hl.between hp hq]
      exact ⟨[.onDisposing h c], rfl⟩
  · rw [hl.disposed hq]

theorem Inv.safe (hw : Inv w) : Safe w := by
  have hplaces : (w.manager.zombies ++ w.held ++ w.freed).Nodup :=
    hw.accounted.perm.nodup_iff.mp hw.accounted.nodup
  have hremoved : ∀ c ∈ w.freed, c ∈ w.removed := fun c hc =>
    hw.accounted.perm.mem_iff.mpr (List.mem_append_right _ hc)
  constructor
  · exact hw.subscribed.fresh
  · exact (List.nodup_append.mp hplaces).2.1
  · exact hremoved
  · rintro ⟨hzombies, hclearing⟩ c hc
    have hin := hw.accounted.perm.mem_iff.mp hc
    simpa [hzombies, World.held, World.pDisposing, World.freeing, hclearing] using hin
  · exact fun c hc h hh => (hw.told.told c hc h hh).isPrefix
  · intro c hc h hh
    apply (hw.told.told c (hremoved c hc) h hh).disposed
    -- a freed resource is neither a zombie nor one that `do_clear` has
    have hdisjoint : c ∉ w.manager.zombies ++ w.held := fun hin =>
      (List.disjoint_of_nodup_append hplaces) hin hc
    rintro (hin | hin)
    · exact hdisjoint (List.mem_append_left _ hin)
    · apply hdisjoint
      apply List.mem_append_right
      cases hk : w.clearing with
      | none => simp [hk] at hin
      | some k =>
        cases k with
        | freeing left => simp [hk] at hin
        | disposing disposed c' handlers left =>
          simp only [hk] at hin
          simp only [World.held, World.pDisposing, World.freeing, hk, List.append_nil,
            List.mem_append, List.mem_cons]
          tauto

/-- Over all runs of such steps the callbacks are safe, and the manager can come to rest from
every state, with all that was removed freed. -/
theorem safe_of_proper_runs (hrun : System.Reaches step Proper .new w) :
    Safe w ∧ ∃ t, System.Reaches step Proper w t ∧ t.Idle ∧ t.removed = w.removed ∧ Safe t := by
  obtain ⟨t, hon, -, hidle, hremoved⟩ := exists_idle w
  exact ⟨(Inv.reaches hrun).safe, t, hon, hidle, hremoved, (Inv.reaches (hrun.trans hon)).safe⟩

instance (w : World) (a : Action) : Decidable (Proper w a) := by
  cases a <;> simp only [Proper] <;> infer_instance

/-- A run with a callback that removes another resource. -/
theorem safe_of_nested_removal :
    ∃ w, System.Reaches step Proper .new w ∧ Safe w ∧ w.freed = [11, 10] ∧
      w.told 1 11 = [.onBeforeDispose 1 11, .onDisposing 1 11] := by
  have hobserve := System.reaches_of_observe step Proper .new
    [.subscribe 1, .remove 1 10, .remove 1 11, .ret 1, .ret 1, .clear, .ret 0, .ret 0, .ret 0,
      .ret 0, .ret 0] (fun w => (w.freed, w.told 1 11)) (b := ([11, 10],
        [.onBeforeDispose 1 11, .onDisposing 1 11])) (by decide +kernel)
  obtain ⟨w, hrun, -, hw⟩ := hobserve
  obtain ⟨hfreed, htold⟩ := Prod.mk.inj hw
  exact ⟨w, hrun, (safe_of_proper_runs hrun).1, hfreed, htold⟩

/-- A callback removes a second resource, which sets `removing_` to `false`. Handler 2 then
unsubscribes and `clear` forgets that it did: the first removal calls it. -/
theorem unsubscribed_handler_called :
    ∃ w, System.Reaches step System.anyStep .new w ∧ w.handlers = [1] ∧
      w.stale = [.onBeforeDispose 2 10] ∧ ¬ Safe w := by
  have hobserve := System.reaches_of_observe step System.anyStep .new
    [.subscribe 1, .subscribe 2, .remove 1 10, .remove 1 11, .ret 1, .ret 1, .unsubscribe 2,
      .clear, .ret 1] (fun w => (w.handlers, w.stale)) (b := ([1], [.onBeforeDispose 2 10]))
    (by decide +kernel)
  obtain ⟨w, hrun, -, hw⟩ := hobserve
  obtain ⟨hhandlers, hstale⟩ := Prod.mk.inj hw
  refine ⟨w, hrun, hhandlers, hstale, ?_⟩
  intro hsafe
  have hnil := hsafe.fresh
  rw [hstale] at hnil
  cases hnil

end

end SrsChatRoom.App.Disposal
