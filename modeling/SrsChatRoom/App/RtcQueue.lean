import SrsChatRoom.Lib.SerialNumber
import SrsChatRoom.Lib.System

/-!
# Lost packets of a track (`srs_app_rtc_queue.cpp`)

A track keeps the range of serial numbers it has seen in `SrsRtpRingBuffer` and the numbers it
misses in `SrsRtpNackForReceiver`. `on_nack` takes a number that arrives late off the list; any
other one it shows to `update`, which moves the end of the range forward and reports the numbers
that were jumped over. When the list is full, the list and the range start again from nothing.

Below, packets have numbers without bound, of which the code sees the low 16 bits. `received` has
the numbers since the last start, and `nack_queue_exact` says that the list has exactly the
numbers in between that have not arrived. `Admitted` is its condition on an arrival: besides the
distance from the highest number it leaves out the branch of `update` for numbers before the
range, and numbers that 16 bits cannot compare with a missing one.
-/

namespace SrsChatRoom.App

/-! ## The ring buffer -/

/-- `SrsRtpRingBuffer`, for packets of type `P`. -/
structure RingBuffer (P : Type) where
  capacity : ℕ
  slots : ℕ → Option P
  nnSeqFlipBacks : ℕ
  initialized : Bool
  begin_ : UInt16
  end_ : UInt16

namespace RingBuffer

variable {P : Type}

/-- `SrsRtpRingBuffer(capacity)` -/
def new (capacity : ℕ) : RingBuffer P := ⟨capacity % 65536, fun _ => none, 0, false, 0, 0⟩

/-- `set(at, pkt)` -/
def set (r : RingBuffer P) (at_ : UInt16) (pkt : P) : RingBuffer P :=
  { r with slots := fun i => if i = at_.toNat % r.capacity then some pkt else r.slots i }

/-- The condition of the last branch of `update`: the number is before the range. -/
def Early (r : RingBuffer P) (seq : UInt16) : Prop :=
  r.initialized = true ∧ seqDistance r.end_ seq < 0 ∧ 0 < seqDistance seq r.begin_

/-- `update(seq, nack_first, nack_last)`, where the caller has set both to 0. -/
def update (r : RingBuffer P) (seq : UInt16) : RingBuffer P × UInt16 × UInt16 :=
  if !r.initialized then
    ({ r with initialized := true, begin_ := seq, end_ := seq + 1 }, 0, 0)
  else if 0 ≤ seqDistance r.end_ seq then
    -- the numbers from the end up to `seq` have been jumped over
    ({ r with
      nnSeqFlipBacks := if seq < r.end_ then r.nnSeqFlipBacks + 1 else r.nnSeqFlipBacks
      end_ := seq + 1 }, r.end_, seq)
  else if 0 < seqDistance seq r.begin_ then
    ({ r with begin_ := seq }, seq, r.begin_)
  else (r, 0, 0)

/-- `notify_nack_list_full()` -/
def notifyNackListFull (r : RingBuffer P) : RingBuffer P :=
  { r with slots := fun _ => none, begin_ := 0, end_ := 0, initialized := false }

end RingBuffer

/-! ## The list of missing numbers -/

/-- `SrsSeqCompareLess` -/
def seqCompareLess (preValue value : UInt16) : Bool := 0 < seqDistance preValue value

/-- What the map takes for the same key: neither is less than the other. -/
def sameKey (a b : UInt16) : Bool := !seqCompareLess a b && !seqCompareLess b a

/-- `SrsRtpNackForReceiver`: the keys of its map. The times beside them and the order of the keys
matter only to the requests for the missing packets. -/
structure NackForReceiver where
  queue : List UInt16
  maxQueueSize : ℕ

namespace NackForReceiver

/-- `find(seq)` -/
def find (nack : NackForReceiver) (seq : UInt16) : Option UInt16 :=
  nack.queue.find? fun key => sameKey key seq

/-- `remove(seq)` -/
def remove (nack : NackForReceiver) (seq : UInt16) : NackForReceiver :=
  { nack with queue := nack.queue.filter fun key => !sameKey key seq }

/-- `queue_[s] = SrsRtpNackInfo()` -/
def assign (queue : List UInt16) (s : UInt16) : List UInt16 :=
  if queue.any fun key => sameKey key s then queue else queue ++ [s]

/-- The loop of `insert`. -/
def insertLoop (last : UInt16) : ℕ → UInt16 → List UInt16 → List UInt16
  | 0, _, queue => queue
  | fuel + 1, s, queue =>
    if s = last then queue else insertLoop last fuel (s + 1) (assign queue s)

/-- `insert(first, last)`. After 2^16 rounds `s` has come to `last`. -/
def insert (nack : NackForReceiver) (highWaterLevel : Bool) (first last : UInt16) :
    NackForReceiver :=
  if highWaterLevel then nack
  else { nack with queue := insertLoop last 65536 first nack.queue }

end NackForReceiver

/-! ## The track -/

/-- The part of `SrsRtcRecvTrack` for lost packets. -/
structure RecvTrack (P : Type) where
  rtpQueue : RingBuffer P
  nackReceiver : NackForReceiver

namespace RecvTrack

variable {P : Type}

/-- A new track; 100 and 66 for audio, 1000 and 666 for video. -/
def new (capacity maxQueueSize : ℕ) : RecvTrack P := ⟨.new capacity, ⟨[], maxQueueSize⟩⟩

/-- `check_queue_size()` -/
def checkQueueSize (t : RecvTrack P) : RecvTrack P :=
  if t.nackReceiver.maxQueueSize ≤ t.nackReceiver.queue.length then
    { t with
      rtpQueue := t.rtpQueue.notifyNackListFull
      nackReceiver := { t.nackReceiver with queue := [] } }
  else t

/-- The part of `on_nack` for the numbers that `update` reports. -/
def insertNacks (highWaterLevel : Bool) (t : RecvTrack P) (nackFirst nackLast : UInt16) :
    RecvTrack P :=
  if 0 < seqDistance nackFirst nackLast then
    { t with nackReceiver := t.nackReceiver.insert highWaterLevel nackFirst nackLast }.checkQueueSize
  else t

/-- `on_nack`, for a packet with the sequence number `seq`. -/
def onNack (highWaterLevel : Bool) (t : RecvTrack P) (seq : UInt16) (pkt : P) : RecvTrack P :=
  match t.nackReceiver.find seq with
  | some _ => { t with nackReceiver := t.nackReceiver.remove seq }
  | none =>
    let updated := t.rtpQueue.update seq
    let t := { t with rtpQueue := updated.1 }.insertNacks highWaterLevel updated.2.1 updated.2.2
    { t with rtpQueue := t.rtpQueue.set seq pkt }

variable {highWaterLevel : Bool}

theorem onNack_some {t : RecvTrack P} {seq key : UInt16}
    (h : t.nackReceiver.find seq = some key) (pkt : P) :
    t.onNack highWaterLevel seq pkt = { t with nackReceiver := t.nackReceiver.remove seq } := by
  rw [onNack, h]

theorem onNack_none {t : RecvTrack P} {seq nackFirst nackLast : UInt16}
    {rtpQueue : RingBuffer P} (h : t.nackReceiver.find seq = none)
    (hupdate : t.rtpQueue.update seq = (rtpQueue, nackFirst, nackLast)) (pkt : P) :
    t.onNack highWaterLevel seq pkt =
      { { t with rtpQueue := rtpQueue }.insertNacks highWaterLevel nackFirst nackLast with
        rtpQueue := ({ t with rtpQueue := rtpQueue }.insertNacks highWaterLevel nackFirst
          nackLast).rtpQueue.set seq pkt } := by
  rw [onNack, h]
  simp only [hupdate]

theorem insertNacks_empty (highWaterLevel : Bool) (t : RecvTrack P) {nackFirst nackLast : UInt16}
    (h : seqDistance nackFirst nackLast ≤ 0) :
    t.insertNacks highWaterLevel nackFirst nackLast = t := if_neg (not_lt.mpr h)

end RecvTrack

/-! ## Arrivals -/

/-- A track and the numbers it has received since the last start. -/
structure Reception (P : Type) where
  track : RecvTrack P
  received : List ℤ

variable {P : Type}

/-- A packet arrives. Where the list was full, all starts again. -/
def arrive (r : Reception P) (packet : ℤ × P) : Option (Reception P) :=
  let track := r.track.onNack false (seqOf packet.1) packet.2
  some ⟨track, if track.rtpQueue.initialized then packet.1 :: r.received else []⟩

/-- A number between the lowest and the highest received that has not arrived. -/
def Missing (received : List ℤ) (m : ℤ) : Prop :=
  m ∉ received ∧ (∃ a ∈ received, a ≤ m) ∧ ∃ b ∈ received, m ≤ b

/-- The condition on an arrival. -/
structure Admitted (capacity : ℕ) (r : Reception P) (packet : ℤ × P) : Prop where
  /-- It is within the capacity of the highest number. -/
  within : ∀ hi ∈ r.received, (∀ a ∈ r.received, a ≤ hi) → |packet.1 - hi| ≤ capacity
  /-- It is on the list, or not before the range. -/
  not_early : r.track.nackReceiver.find (seqOf packet.1) = none →
    ¬ r.track.rtpQueue.Early (seqOf packet.1)
  /-- Missing numbers are less than 2^15 away. -/
  near : ∀ m, Missing r.received m → |packet.1 - m| < 32768

/-! ## Keys of numbers -/

/-- Keys of numbers that are less than 2^15 apart are the same only for the same number. -/
theorem sameKey_seqOf {m n : ℤ} (h : |n - m| < 32768) :
    sameKey (seqOf m) (seqOf n) = decide (m = n) := by
  have hbounds := abs_lt.mp h
  have hmn : seqDistance (seqOf m) (seqOf n) = n - m := seqDistance_near (by omega) (by omega)
  have hnm : seqDistance (seqOf n) (seqOf m) = m - n := seqDistance_near (by omega) (by omega)
  rw [sameKey, seqCompareLess, seqCompareLess, hmn, hnm]
  by_cases heq : m = n
  · simp [heq]
  · rw [decide_eq_false heq]
    by_cases hlt : 0 < n - m
    · rw [decide_eq_true hlt]
      rfl
    · have hgt : 0 < m - n := by omega
      rw [decide_eq_true hgt, Bool.not_true, Bool.and_false]

section Keys

variable {missing : List ℤ} {n : ℤ}

theorem find_seqOf (nack : NackForReceiver) (hqueue : nack.queue = missing.map seqOf)
    (hnear : ∀ m ∈ missing, |n - m| < 32768) : nack.find (seqOf n) = none ↔ n ∉ missing := by
  rw [NackForReceiver.find, hqueue, List.find?_eq_none]
  constructor
  · intro h hn
    have hself : sameKey (seqOf n) (seqOf n) = true := by
      rw [sameKey_seqOf (by simp)]
      simp
    exact h _ (List.mem_map_of_mem hn) hself
  · intro hn key hkey
    obtain ⟨m, hm, rfl⟩ := List.mem_map.mp hkey
    have hne : m ≠ n := fun heq => hn (heq ▸ hm)
    rw [sameKey_seqOf (hnear m hm)]
    simp [hne]

theorem remove_seqOf (nack : NackForReceiver) (hqueue : nack.queue = missing.map seqOf)
    (hnear : ∀ m ∈ missing, |n - m| < 32768) :
    (nack.remove (seqOf n)).queue = (missing.filter (· ≠ n)).map seqOf := by
  show nack.queue.filter _ = _
  rw [hqueue, List.filter_map]
  congr 1
  apply List.filter_congr
  intro m hm
  show (!sameKey (seqOf m) (seqOf n)) = _
  rw [sameKey_seqOf (hnear m hm)]
  simp

/-- A number that is new to the list goes to its end. -/
theorem assign_seqOf (hnear : ∀ m ∈ missing, |n - m| < 32768) (hn : n ∉ missing) :
    NackForReceiver.assign (missing.map seqOf) (seqOf n) = (missing ++ [n]).map seqOf := by
  have hnone : ((missing.map seqOf).any fun key => sameKey key (seqOf n)) = false := by
    rw [List.any_eq_false]
    intro key hkey
    obtain ⟨m, hm, rfl⟩ := List.mem_map.mp hkey
    have hne : m ≠ n := fun heq => hn (heq ▸ hm)
    rw [sameKey_seqOf (hnear m hm)]
    simp [hne]
  rw [NackForReceiver.assign, if_neg (by simp [hnone]), List.map_append]
  rfl

/-- The numbers `s`, `s + 1` and so on, `k` of them. -/
def numbersFrom : ℤ → ℕ → List ℤ
  | _, 0 => []
  | s, k + 1 => s :: numbersFrom (s + 1) k

theorem mem_numbersFrom (s : ℤ) (k : ℕ) (m : ℤ) : m ∈ numbersFrom s k ↔ s ≤ m ∧ m < s + k := by
  induction k generalizing s with
  | zero =>
    simp only [numbersFrom, List.not_mem_nil, false_iff]
    omega
  | succ k ih =>
    rw [numbersFrom, List.mem_cons, ih]
    push_cast
    omega

theorem nodup_numbersFrom (s : ℤ) (k : ℕ) : (numbersFrom s k).Nodup := by
  induction k generalizing s with
  | zero => exact List.nodup_nil
  | succ k ih =>
    rw [numbersFrom, List.nodup_cons, mem_numbersFrom]
    exact ⟨by omega, ih _⟩

/-- The loop adds the numbers from `s` on, up to `k` numbers later, to a list of lower ones. -/
theorem insertLoop_seqOf (k fuel : ℕ) (s : ℤ) (missing : List ℤ) (hfuel : k < fuel)
    (hk : k < 32768) (hlow : ∀ m ∈ missing, m < s ∧ s + k - m < 32768) :
    NackForReceiver.insertLoop (seqOf (s + k)) fuel (seqOf s) (missing.map seqOf) =
      (missing ++ numbersFrom s k).map seqOf := by
  induction k generalizing fuel s missing with
  | zero =>
    obtain ⟨fuel, rfl⟩ : ∃ f, fuel = f + 1 := ⟨fuel - 1, by omega⟩
    rw [NackForReceiver.insertLoop, if_pos (by simp), numbersFrom, List.append_nil]
  | succ k ih =>
    obtain ⟨fuel, rfl⟩ : ∃ f, fuel = f + 1 := ⟨fuel - 1, by omega⟩
    have hne : seqOf s ≠ seqOf (s + (k + 1 : ℕ)) := by
      rw [Ne, seqOf_eq_iff]
      omega
    have hnear : ∀ m ∈ missing, |s - m| < 32768 := by
      intro m hm
      have hb := hlow m hm
      rw [abs_lt]
      omega
    have hnew : s ∉ missing := fun hs => lt_irrefl s (hlow s hs).1
    have hlast : s + (k + 1 : ℕ) = s + 1 + (k : ℕ) := by
      push_cast
      omega
    rw [NackForReceiver.insertLoop, if_neg hne, assign_seqOf hnear hnew, ← seqOf_succ, hlast,
      ih fuel (s + 1) (missing ++ [s]) (by omega) (by omega), numbersFrom]
    · rw [List.append_assoc]
      rfl
    · intro m hm
      rcases List.mem_append.mp hm with hm | hm
      · have hb := hlow m hm
        omega
      · rw [List.mem_singleton] at hm
        omega

end Keys

/-! ## The list is exact -/

/-- The track is set up for the numbers received since the last start, of which `lo` is the lowest
and `hi` the highest, and the list has the numbers of `missing`. -/
structure Tracks (r : Reception P) (lo hi : ℤ) (missing : List ℤ) : Prop where
  initialized : r.track.rtpQueue.initialized = true
  begin_eq : r.track.rtpQueue.begin_ = seqOf lo
  end_eq : r.track.rtpQueue.end_ = seqOf (hi + 1)
  lo_mem : lo ∈ r.received
  hi_mem : hi ∈ r.received
  bounds : ∀ a ∈ r.received, lo ≤ a ∧ a ≤ hi
  queue_eq : r.track.nackReceiver.queue = missing.map seqOf
  mem_missing : ∀ m, m ∈ missing ↔ lo ≤ m ∧ m ≤ hi ∧ m ∉ r.received
  recent : ∀ m ∈ missing, hi - m < 65536
  nodup : missing.Nodup
  length_lt : missing.length < r.track.nackReceiver.maxQueueSize

/-- Nothing has been received since the last start, or the track is set up for what has. -/
def Exact (r : Reception P) : Prop :=
  (r.received = [] ∧ r.track.rtpQueue.initialized = false ∧ r.track.nackReceiver.queue = []) ∨
    ∃ lo hi missing, Tracks r lo hi missing

section Arrival

variable {capacity : ℕ} {r : Reception P} {lo hi n : ℤ} {missing : List ℤ} {pkt : P}

/-- What `arrive` leads to where the list is not cleared. -/
theorem Tracks.missing_iff (h : Tracks r lo hi missing) (m : ℤ) :
    Missing r.received m ↔ m ∈ missing := by
  rw [h.mem_missing]
  constructor
  · rintro ⟨hm, ⟨a, ha, ham⟩, b, hb, hmb⟩
    have hlo := (h.bounds a ha).1
    have hhi := (h.bounds b hb).2
    exact ⟨by omega, by omega, hm⟩
  · rintro ⟨hlo, hhi, hm⟩
    exact ⟨hm, ⟨lo, h.lo_mem, hlo⟩, hi, h.hi_mem, hhi⟩

/-- The first packet after a start. -/
theorem exact_first (hinit : r.track.rtpQueue.initialized = false)
    (hqueue : r.track.nackReceiver.queue = []) (hreceived : r.received = [])
    (hmax : 0 < r.track.nackReceiver.maxQueueSize) :
    ∃ r', arrive r (n, pkt) = some r' ∧ Tracks r' n n [] := by
  have hfind : r.track.nackReceiver.find (seqOf n) = none := by
    rw [NackForReceiver.find, hqueue]
    rfl
  have hupdate : r.track.rtpQueue.update (seqOf n) = ({ r.track.rtpQueue with
      initialized := true, begin_ := seqOf n, end_ := seqOf n + 1 }, 0, 0) := by
    rw [RingBuffer.update, if_pos (by rw [hinit]; rfl)]
  rw [arrive, RecvTrack.onNack_none hfind hupdate, RecvTrack.insertNacks_empty _ _ (by decide)]
  refine ⟨_, rfl, ?_⟩
  exact {
    initialized := rfl
    begin_eq := rfl
    end_eq := (seqOf_succ n).symm
    lo_mem := List.mem_cons_self
    hi_mem := List.mem_cons_self
    bounds := by
      intro a ha
      simp only [RingBuffer.set, if_true, hreceived, List.mem_singleton] at ha
      omega
    queue_eq := hqueue
    mem_missing := by
      intro m
      simp only [RingBuffer.set, if_true, List.not_mem_nil, List.mem_cons, not_or, false_iff]
      omega
    recent := by simp
    nodup := List.nodup_nil
    length_lt := hmax }

/-- A packet that is on the list. -/
theorem Tracks.arrive_missing (h : Tracks r lo hi missing) (hn : n ∈ missing)
    (hnear : ∀ m ∈ missing, |n - m| < 32768) :
    ∃ r', arrive r (n, pkt) = some r' ∧ Tracks r' lo hi (missing.filter (· ≠ n)) := by
  obtain ⟨key, hfind⟩ : ∃ key, r.track.nackReceiver.find (seqOf n) = some key := by
    rw [← Option.ne_none_iff_exists', Ne, find_seqOf _ h.queue_eq hnear]
    exact not_not_intro hn
  obtain ⟨hlo, hhi, hnot⟩ := (h.mem_missing n).mp hn
  have hreceived : ∀ a, a ∈ (if r.track.rtpQueue.initialized = true then n :: r.received else []) ↔
      a = n ∨ a ∈ r.received := by
    intro a
    rw [if_pos h.initialized, List.mem_cons]
  rw [arrive, RecvTrack.onNack_some hfind]
  refine ⟨_, rfl, ?_⟩
  exact {
    initialized := h.initialized
    begin_eq := h.begin_eq
    end_eq := h.end_eq
    lo_mem := (hreceived lo).mpr (Or.inr h.lo_mem)
    hi_mem := (hreceived hi).mpr (Or.inr h.hi_mem)
    bounds := by
      intro a ha
      rcases (hreceived a).mp ha with rfl | ha
      · exact ⟨hlo, hhi⟩
      · exact h.bounds a ha
    queue_eq := remove_seqOf _ h.queue_eq hnear
    mem_missing := by
      intro m
      rw [List.mem_filter, h.mem_missing, hreceived]
      simp only [ne_eq, decide_not, Bool.not_eq_true', decide_eq_false_iff_not]
      tauto
    recent := fun m hm => h.recent m (List.mem_of_mem_filter hm)
    nodup := h.nodup.filter _
    length_lt := lt_of_le_of_lt (List.length_filter_le _ _) h.length_lt }

/-- A packet inside the range that is not on the list has arrived before. -/
theorem Tracks.arrive_again (h : Tracks r lo hi missing) (hcap : capacity < 32768)
    (hn : n ∉ missing) (hadmitted : Admitted capacity r (n, pkt)) (hhi : n ≤ hi) :
    ∃ r', arrive r (n, pkt) = some r' ∧ Tracks r' lo hi missing := by
  have hnear : ∀ m ∈ missing, |n - m| < 32768 := fun m hm =>
    hadmitted.near m ((h.missing_iff m).mpr hm)
  have hfind : r.track.nackReceiver.find (seqOf n) = none := (find_seqOf _ h.queue_eq hnear).mpr hn
  have hwithin := abs_le.mp (hadmitted.within hi h.hi_mem fun a ha => (h.bounds a ha).2)
  have hdist : seqDistance r.track.rtpQueue.end_ (seqOf n) = n - (hi + 1) := by
    rw [h.end_eq]
    exact seqDistance_near (by omega) (by omega)
  have hbegin : ¬ 0 < seqDistance (seqOf n) r.track.rtpQueue.begin_ := by
    intro hearly
    exact hadmitted.not_early hfind ⟨h.initialized, by rw [hdist]; omega, hearly⟩
  have hlo : lo ≤ n := by
    by_contra hlt
    have hlow := (h.bounds hi h.hi_mem).1
    rw [h.begin_eq, seqDistance_near (by omega) (by omega)] at hbegin
    omega
  have hmem : n ∈ r.received := by
    by_contra hnot
    exact hn ((h.mem_missing n).mpr ⟨hlo, hhi, hnot⟩)
  have hupdate : r.track.rtpQueue.update (seqOf n) = (r.track.rtpQueue, 0, 0) := by
    rw [RingBuffer.update, if_neg (by simp [h.initialized]), if_neg (by rw [hdist]; omega),
      if_neg hbegin]
  rw [arrive, RecvTrack.onNack_none hfind hupdate, RecvTrack.insertNacks_empty _ _ (by decide)]
  refine ⟨_, rfl, ?_⟩
  have hreceived : ∀ a, a ∈ (if r.track.rtpQueue.initialized = true then n :: r.received else []) ↔
      a ∈ r.received := by
    intro a
    rw [if_pos h.initialized, List.mem_cons]
    constructor
    · rintro (rfl | ha)
      · exact hmem
      · exact ha
    · exact Or.inr
  exact {
    initialized := h.initialized
    begin_eq := h.begin_eq
    end_eq := h.end_eq
    lo_mem := (hreceived lo).mpr h.lo_mem
    hi_mem := (hreceived hi).mpr h.hi_mem
    bounds := fun a ha => h.bounds a ((hreceived a).mp ha)
    queue_eq := h.queue_eq
    mem_missing := fun m => by
      rw [h.mem_missing]
      exact and_congr_right fun _ => and_congr_right fun _ => not_congr (hreceived m).symm
    recent := h.recent
    nodup := h.nodup
    length_lt := h.length_lt }

/-- The numbers that are reported go to the list, or the list is full and all is cleared. -/
theorem insertNacks_cases {t : RecvTrack P} {s : ℤ} {k : ℕ} (hk : k < 32768)
    (hqueue : t.nackReceiver.queue = missing.map seqOf)
    (hlow : ∀ m ∈ missing, m < s ∧ s + k - m < 32768)
    (hlength : missing.length < t.nackReceiver.maxQueueSize) :
    (t.insertNacks false (seqOf s) (seqOf (s + k)) = { t with
        nackReceiver := { t.nackReceiver with
          queue := (missing ++ numbersFrom s k).map seqOf } } ∧
      (missing ++ numbersFrom s k).length < t.nackReceiver.maxQueueSize) ∨
    (t.insertNacks false (seqOf s) (seqOf (s + k)) = { t with
        rtpQueue := t.rtpQueue.notifyNackListFull
        nackReceiver := { t.nackReceiver with queue := [] } } ∧
      t.nackReceiver.maxQueueSize ≤ (missing ++ numbersFrom s k).length) := by
  have hdist : seqDistance (seqOf s) (seqOf (s + k)) = k := by
    rw [seqDistance_near (by omega) (by omega)]
    omega
  by_cases hzero : k = 0
  · left
    rw [RecvTrack.insertNacks_empty _ _ (by rw [hdist]; omega), hzero, numbersFrom,
      List.append_nil, ← hqueue]
    exact ⟨rfl, hlength⟩
  · have hinsert : t.nackReceiver.insert false (seqOf s) (seqOf (s + k)) =
        { t.nackReceiver with queue := (missing ++ numbersFrom s k).map seqOf } := by
      rw [NackForReceiver.insert, if_neg Bool.false_ne_true, hqueue,
        insertLoop_seqOf k 65536 s missing (by omega) hk hlow]
    rw [RecvTrack.insertNacks, if_pos (by rw [hdist]; omega), hinsert, RecvTrack.checkQueueSize]
    by_cases hfull : t.nackReceiver.maxQueueSize ≤ (missing ++ numbersFrom s k).length
    · right
      rw [if_pos (by rw [List.length_map]; exact hfull)]
      exact ⟨rfl, hfull⟩
    · left
      rw [if_neg (by rw [List.length_map]; exact hfull)]
      exact ⟨rfl, not_le.mp hfull⟩

/-- A packet above the range: the numbers that it has jumped over go to the list, which is
cleared where it is full then. -/
theorem Tracks.arrive_above (h : Tracks r lo hi missing) (hcap : capacity < 32768)
    (hadmitted : Admitted capacity r (n, pkt)) (hhi : hi < n) :
    ∃ r', arrive r (n, pkt) = some r' ∧
      (Tracks r' lo n (missing ++ numbersFrom (hi + 1) (n - hi - 1).toNat) ∨
        (r'.received = [] ∧ r'.track.rtpQueue.initialized = false ∧
          r'.track.nackReceiver.queue = []) ∧
        r.track.nackReceiver.maxQueueSize ≤
          (missing ++ numbersFrom (hi + 1) (n - hi - 1).toNat).length) := by
  have hnear : ∀ m ∈ missing, |n - m| < 32768 := fun m hm =>
    hadmitted.near m ((h.missing_iff m).mpr hm)
  have hle : ∀ m ∈ missing, m ≤ hi := fun m hm => ((h.mem_missing m).mp hm).2.1
  have hn : n ∉ missing := fun hm => absurd (hle n hm) (by omega)
  have hfind : r.track.nackReceiver.find (seqOf n) = none := (find_seqOf _ h.queue_eq hnear).mpr hn
  have hwithin := abs_le.mp (hadmitted.within hi h.hi_mem fun a ha => (h.bounds a ha).2)
  have hdist : seqDistance r.track.rtpQueue.end_ (seqOf n) = n - (hi + 1) := by
    rw [h.end_eq]
    exact seqDistance_near (by omega) (by omega)
  have hupdate : r.track.rtpQueue.update (seqOf n) = ({ r.track.rtpQueue with
      nnSeqFlipBacks := if seqOf n < r.track.rtpQueue.end_ then r.track.rtpQueue.nnSeqFlipBacks + 1
        else r.track.rtpQueue.nnSeqFlipBacks
      end_ := seqOf n + 1 }, r.track.rtpQueue.end_, seqOf n) := by
    rw [RingBuffer.update, if_neg (by simp [h.initialized]), if_pos (by rw [hdist]; omega)]
  set k := (n - hi - 1).toNat with hk
  have hlast : hi + 1 + (k : ℤ) = n := by omega
  have hlow : ∀ m ∈ missing, m < hi + 1 ∧ hi + 1 + (k : ℤ) - m < 32768 := by
    intro m hm
    have hm' := abs_lt.mp (hnear m hm)
    have hmhi := hle m hm
    omega
  rw [arrive, RecvTrack.onNack_none hfind hupdate, h.end_eq]
  refine ⟨_, rfl, ?_⟩
  rcases insertNacks_cases (t := { r.track with rtpQueue := { r.track.rtpQueue with
      nnSeqFlipBacks := if seqOf n < seqOf (hi + 1) then r.track.rtpQueue.nnSeqFlipBacks + 1
        else r.track.rtpQueue.nnSeqFlipBacks
      end_ := seqOf n + 1 } }) (by omega) h.queue_eq hlow h.length_lt with
    ⟨hcase, hlength⟩ | ⟨hcase, hlength⟩
  · left
    rw [hlast] at hcase
    rw [hcase]
    have hreceived : ∀ a, a ∈ (if r.track.rtpQueue.initialized = true then n :: r.received
        else []) ↔ a = n ∨ a ∈ r.received := by
      intro a
      rw [if_pos h.initialized, List.mem_cons]
    exact {
      initialized := h.initialized
      begin_eq := h.begin_eq
      end_eq := (seqOf_succ n).symm
      lo_mem := (hreceived lo).mpr (Or.inr h.lo_mem)
      hi_mem := (hreceived n).mpr (Or.inl rfl)
      bounds := by
        intro a ha
        have hlo := (h.bounds hi h.hi_mem).1
        rcases (hreceived a).mp ha with rfl | ha
        · omega
        · have hb := h.bounds a ha
          omega
      queue_eq := rfl
      mem_missing := by
        intro m
        have hlo := (h.bounds hi h.hi_mem).1
        rw [List.mem_append, h.mem_missing, mem_numbersFrom, hlast]
        refine Iff.trans ?_ (and_congr_right fun _ => and_congr_right fun _ =>
          not_congr (hreceived m)).symm
        have habove : hi < m → m ∉ r.received := fun hm hr => absurd (h.bounds m hr).2 (by omega)
        constructor
        · rintro (⟨hmlo, hmhi, hm⟩ | ⟨hmlo, hmn⟩)
          · exact ⟨hmlo, by omega, not_or.mpr ⟨by omega, hm⟩⟩
          · exact ⟨by omega, by omega, not_or.mpr ⟨by omega, habove (by omega)⟩⟩
        · rintro ⟨hmlo, hmn, hm⟩
          obtain ⟨hne, hm⟩ := not_or.mp hm
          by_cases hmhi : m ≤ hi
          · exact Or.inl ⟨hmlo, hmhi, hm⟩
          · exact Or.inr ⟨by omega, by omega⟩
      recent := by
        intro m hm
        rcases List.mem_append.mp hm with hm | hm
        · have hm' := abs_lt.mp (hnear m hm)
          omega
        · rw [mem_numbersFrom] at hm
          omega
      nodup := by
        rw [List.nodup_append']
        refine ⟨h.nodup, nodup_numbersFrom _ _, fun m hm hm' => ?_⟩
        have hmhi := hle m hm
        rw [mem_numbersFrom] at hm'
        omega
      length_lt := hlength }
  · right
    rw [hlast] at hcase
    rw [hcase]
    exact ⟨⟨rfl, rfl, rfl⟩, hlength⟩

/-- An admitted arrival leads to a track that is set up for all that has arrived since the last
start; or the list is cleared, where it was full. -/
theorem Tracks.arrive_cases (h : Tracks r lo hi missing) (hcap : capacity < 32768)
    (hadmitted : Admitted capacity r (n, pkt)) :
    ∃ r', arrive r (n, pkt) = some r' ∧
      ((∃ lo' hi' missing', Tracks r' lo' hi' missing') ∨
        (r'.received = [] ∧ r'.track.rtpQueue.initialized = false ∧
          r'.track.nackReceiver.queue = []) ∧
        ∃ missing' : List ℤ, missing'.Nodup ∧
          (∀ m ∈ missing', Missing (n :: r.received) m) ∧
          r.track.nackReceiver.maxQueueSize ≤ missing'.length) := by
  have hnear : ∀ m ∈ missing, |n - m| < 32768 := fun m hm =>
    hadmitted.near m ((h.missing_iff m).mpr hm)
  by_cases hmem : n ∈ missing
  · obtain ⟨r', hr', htracks⟩ : ∃ r', arrive r (n, pkt) = some r' ∧ _ :=
      h.arrive_missing hmem hnear
    exact ⟨r', hr', Or.inl ⟨lo, hi, _, htracks⟩⟩
  · by_cases hhi : n ≤ hi
    · obtain ⟨r', hr', htracks⟩ := h.arrive_again hcap hmem hadmitted hhi
      exact ⟨r', hr', Or.inl ⟨lo, hi, missing, htracks⟩⟩
    · obtain ⟨r', hr', htracks | ⟨hcleared, hfull⟩⟩ := h.arrive_above hcap hadmitted (by omega)
      · exact ⟨r', hr', Or.inl ⟨lo, n, _, htracks⟩⟩
      · have hnodup : (missing ++ numbersFrom (hi + 1) (n - hi - 1).toNat).Nodup := by
          rw [List.nodup_append']
          refine ⟨h.nodup, nodup_numbersFrom _ _, fun m hm hm' => ?_⟩
          have hmhi := ((h.mem_missing m).mp hm).2.1
          rw [mem_numbersFrom] at hm'
          omega
        refine ⟨r', hr', Or.inr ⟨hcleared, _, hnodup, fun m hm => ?_, hfull⟩⟩
        have hmlo : lo ≤ m ∧ m < n ∧ m ∉ r.received := by
          have hlohi := (h.bounds hi h.hi_mem).1
          rcases List.mem_append.mp hm with hm | hm
          · obtain ⟨hmlo, hmhi, hnot⟩ := (h.mem_missing m).mp hm
            exact ⟨hmlo, by omega, hnot⟩
          · rw [mem_numbersFrom] at hm
            exact ⟨by omega, by omega, fun hr => absurd (h.bounds m hr).2 (by omega)⟩
        have hne : m ≠ n := by omega
        exact ⟨by simp [hne, hmlo.2.2], ⟨lo, List.mem_cons_of_mem _ h.lo_mem, hmlo.1⟩,
          n, List.mem_cons_self, hmlo.2.1.le⟩

end Arrival

/-- A new track. -/
def Reception.new (capacity maxQueueSize : ℕ) : Reception P := ⟨.new capacity maxQueueSize, []⟩

section Runs

variable {capacity maxQueueSize : ℕ} {r r' : Reception P}

theorem maxQueueSize_insertNacks (t : RecvTrack P) (nackFirst nackLast : UInt16) :
    (t.insertNacks false nackFirst nackLast).nackReceiver.maxQueueSize =
      t.nackReceiver.maxQueueSize := by
  have hinsert : (t.nackReceiver.insert false nackFirst nackLast).maxQueueSize =
      t.nackReceiver.maxQueueSize := rfl
  unfold RecvTrack.insertNacks
  split
  · rw [← hinsert]
    unfold RecvTrack.checkQueueSize
    split <;> rfl
  · rfl

variable {packet : ℤ × P}

theorem maxQueueSize_arrive (h : arrive r packet = some r') :
    r'.track.nackReceiver.maxQueueSize = r.track.nackReceiver.maxQueueSize := by
  rw [arrive, Option.some_inj] at h
  rw [← h]
  cases hfind : r.track.nackReceiver.find (seqOf packet.1) with
  | some key =>
    rw [RecvTrack.onNack_some hfind]
    rfl
  | none =>
    rw [RecvTrack.onNack_none hfind rfl]
    exact maxQueueSize_insertNacks _ _ _

/-- The invariant of the runs. -/
def ExactTo (maxQueueSize : ℕ) (r : Reception P) : Prop :=
  Exact r ∧ r.track.nackReceiver.maxQueueSize = maxQueueSize

/-- Every admitted arrival keeps the list exact. -/
theorem exact_arrive (hcap : capacity < 32768) (hmax : 0 < maxQueueSize)
    (h : ExactTo maxQueueSize r) (hadmitted : Admitted capacity r packet)
    (harrive : arrive r packet = some r') : ExactTo maxQueueSize r' := by
  obtain ⟨n, pkt⟩ := packet
  obtain ⟨hexact, hsize⟩ := h
  refine ⟨?_, (maxQueueSize_arrive harrive).trans hsize⟩
  rcases hexact with ⟨hreceived, hinit, hqueue⟩ | ⟨lo, hi, missing, h⟩
  · obtain ⟨r₁, hr₁, htracks⟩ : ∃ r₁, arrive r (n, pkt) = some r₁ ∧ _ :=
      exact_first hinit hqueue hreceived (hsize ▸ hmax)
    rw [harrive, Option.some_inj] at hr₁
    exact hr₁ ▸ Or.inr ⟨n, n, [], htracks⟩
  · obtain ⟨r₁, hr₁, htracks | ⟨hcleared, -⟩⟩ := h.arrive_cases hcap hadmitted
    · rw [harrive, Option.some_inj] at hr₁
      exact hr₁ ▸ Or.inr htracks
    · rw [harrive, Option.some_inj] at hr₁
      exact hr₁ ▸ Or.inl hcleared

/-- An admitted arrival clears the list exactly when it brings the missing numbers to
`maxQueueSize`. -/
theorem received_eq_nil_iff (hcap : capacity < 32768) (hmax : 0 < maxQueueSize)
    (h : ExactTo maxQueueSize r) (hadmitted : Admitted capacity r packet)
    (harrive : arrive r packet = some r') : r'.received = [] ↔
      ∃ missing : List ℤ, missing.Nodup ∧ (∀ m ∈ missing, Missing (packet.1 :: r.received) m) ∧
        maxQueueSize ≤ missing.length := by
  obtain ⟨n, pkt⟩ := packet
  obtain ⟨hexact', hsize'⟩ := exact_arrive hcap hmax h hadmitted harrive
  constructor
  · intro hnil
    obtain ⟨hexact, hsize⟩ := h
    have hnot : ∀ lo hi missing, ¬ Tracks r' lo hi missing := fun lo hi missing h' => by
      have hmem := h'.lo_mem
      rw [hnil] at hmem
      exact List.not_mem_nil hmem
    rcases hexact with ⟨hreceived, hinit, hqueue⟩ | ⟨lo, hi, missing, h⟩
    · obtain ⟨r₁, hr₁, htracks⟩ : ∃ r₁, arrive r (n, pkt) = some r₁ ∧ _ :=
        exact_first hinit hqueue hreceived (hsize ▸ hmax)
      rw [harrive, Option.some_inj] at hr₁
      exact absurd (hr₁ ▸ htracks) (hnot _ _ _)
    · obtain ⟨r₁, hr₁, ⟨lo', hi', missing', htracks⟩ | ⟨-, hfull⟩⟩ := h.arrive_cases hcap hadmitted
      · rw [harrive, Option.some_inj] at hr₁
        exact absurd (hr₁ ▸ htracks) (hnot _ _ _)
      · exact hsize ▸ hfull
  · rintro ⟨missing, hnodup, hmissing, hfull⟩
    rcases hexact' with ⟨hreceived, -⟩ | ⟨lo, hi, missing', h'⟩
    · exact hreceived
    · have hreceived : r'.received = n :: r.received := by
        have hinit := h'.initialized
        rw [arrive, Option.some_inj] at harrive
        rw [← harrive] at hinit ⊢
        exact if_pos hinit
      have hsub : missing ⊆ missing' := fun m hm =>
        (h'.missing_iff m).mp (hreceived ▸ hmissing m hm)
      have hle := (hnodup.subperm hsub).length_le
      have hlt := h'.length_lt
      omega

/-- In every run of admitted arrivals, the list has exactly the numbers between the lowest and the
highest received since the last start that have not arrived, and none that has (a number takes
the place of the one 2^16 before it); and an arrival leads to a new start exactly when it brings
the missing numbers to `maxQueueSize`. -/
theorem nack_queue_exact (hcap : capacity < 32768) (hmax : 0 < maxQueueSize)
    (hrun : System.Reaches arrive (Admitted capacity) (Reception.new capacity maxQueueSize) r) :
    (∀ key, key ∈ r.track.nackReceiver.queue ↔ ∃ m, Missing r.received m ∧ seqOf m = key) ∧
      (∀ n ∈ r.received, (∀ a ∈ r.received, a < n + 65536) →
        seqOf n ∉ r.track.nackReceiver.queue) ∧
      ∀ packet r', Admitted capacity r packet → arrive r packet = some r' →
        (r'.received = [] ↔ ∃ missing : List ℤ, missing.Nodup ∧
          (∀ m ∈ missing, Missing (packet.1 :: r.received) m) ∧
          maxQueueSize ≤ missing.length) := by
  have hexact : ExactTo maxQueueSize r := System.Reaches.invariant
    (fun _ _ _ h hadmitted harrive => exact_arrive hcap hmax h hadmitted harrive) hrun
    ⟨Or.inl ⟨rfl, rfl, rfl⟩, rfl⟩
  have hstart : ∀ packet r', Admitted capacity r packet → arrive r packet = some r' → _ :=
    fun packet r' hadmitted harrive => received_eq_nil_iff hcap hmax hexact hadmitted harrive
  rcases hexact.1 with ⟨hreceived, -, hqueue⟩ | ⟨lo, hi, missing, h⟩
  · refine ⟨fun key => ?_, fun n hn => ?_, hstart⟩
    · rw [hqueue, hreceived]
      simp [Missing]
    · rw [hreceived] at hn
      exact absurd hn List.not_mem_nil
  · have hmem : ∀ key, key ∈ r.track.nackReceiver.queue ↔
        ∃ m, Missing r.received m ∧ seqOf m = key := by
      intro key
      rw [h.queue_eq, List.mem_map]
      simp only [h.missing_iff]
    refine ⟨hmem, fun n hn hlast hkey => ?_, hstart⟩
    obtain ⟨m, hm, hseq⟩ := (hmem _).mp hkey
    have hm' := (h.missing_iff m).mp hm
    have hrecent := h.recent m hm'
    have hlow := hlast hi h.hi_mem
    have hhigh := (h.bounds n hn).2
    have hmhi := ((h.mem_missing m).mp hm').2.1
    -- the two numbers are less than 2^16 apart
    have heq : m = n := by
      rw [seqOf_eq_iff] at hseq
      omega
    exact hm.1 (heq ▸ hn)

end Runs

/-! ## Two runs -/

/-- All that has been received is within the capacity, and the number is not before the range. -/
def Close (capacity : ℕ) (r : Reception P) (packet : ℤ × P) : Prop :=
  (∀ a ∈ r.received, |packet.1 - a| ≤ capacity) ∧ ¬ r.track.rtpQueue.Early (seqOf packet.1)

instance (r : RingBuffer P) (seq : UInt16) : Decidable (r.Early seq) :=
  inferInstanceAs (Decidable (_ ∧ _ ∧ _))

instance (capacity : ℕ) (r : Reception P) (packet : ℤ × P) : Decidable (Close capacity r packet) :=
  inferInstanceAs (Decidable (_ ∧ _))

theorem Close.admitted {capacity : ℕ} (hcap : capacity < 32768) {r : Reception P}
    {packet : ℤ × P} (h : Close capacity r packet) : Admitted capacity r packet where
  within := fun hi hhi _ => h.1 hi hhi
  not_early := fun _ => h.2
  near := by
    rintro m ⟨-, ⟨a, ha, ham⟩, b, hb, hmb⟩
    have hna := abs_le.mp (h.1 a ha)
    have hnb := abs_le.mp (h.1 b hb)
    rw [abs_lt]
    omega

/-- A run over the wrap: two numbers are jumped over, one of them comes late, and the highest
comes twice; the other one is on the list. -/
theorem nack_queue_exact_wrap : ∃ r : Reception Unit,
    r.received = [65537, 65535, 65537, 65534] ∧ seqOf 65536 ∈ r.track.nackReceiver.queue := by
  obtain ⟨r, hrun, -, hreceived⟩ := System.reaches_of_observe arrive (Close 100)
    (Reception.new 100 66 : Reception Unit)
    [(65534, ()), (65537, ()), (65535, ()), (65537, ())] Reception.received
    (b := [65537, 65535, 65537, 65534]) (by decide +kernel)
  have hadmitted : System.Reaches arrive (Admitted 100) (Reception.new 100 66) r :=
    System.Reaches.mono (fun _ _ hclose => hclose.admitted (by decide)) hrun
  have hexact := nack_queue_exact (by decide) (by decide) hadmitted
  refine ⟨r, hreceived, (hexact.1 _).mpr ⟨65536, ?_, rfl⟩⟩
  rw [hreceived]
  exact ⟨by decide, ⟨65535, by decide, by decide⟩, 65537, by decide, by decide⟩

/-- Each arrival is within the capacity of the highest number before it. -/
def WithinCapacity (capacity : ℕ) (arrivals : List ℤ) : Prop :=
  ∀ i n, arrivals[i]? = some n →
    ∀ hi ∈ arrivals.take i, (∀ a ∈ arrivals.take i, a ≤ hi) → |n - hi| ≤ capacity

/-- The track after some arrivals. -/
def runTrack (capacity maxQueueSize : ℕ) (arrivals : List ℤ) : RecvTrack Unit :=
  arrivals.foldl (fun t n => t.onNack false (seqOf n) ()) (.new capacity maxQueueSize)

/-- The list has exactly the numbers missing from all arrivals. -/
def ExactOnAll (capacity maxQueueSize : ℕ) : Prop :=
  ∀ arrivals, WithinCapacity capacity arrivals →
    ∀ key, key ∈ (runTrack capacity maxQueueSize arrivals).nackReceiver.queue ↔
      ∃ m, Missing arrivals m ∧ seqOf m = key

/-- A jump within the capacity that fills the list of an audio track: it is cleared. -/
theorem full_list_is_cleared : ¬ ExactOnAll 100 66 := by
  intro h
  have hwithin : WithinCapacity 100 [0, 99] := by
    intro i n hn hi hhi _
    match i with
    | 0 => exact absurd hhi List.not_mem_nil
    | 1 =>
      have hhi0 : hi = 0 := List.mem_singleton.mp hhi
      have hn99 : 99 = n := Option.some_inj.mp hn
      rw [hhi0, ← hn99]
      decide
    | i + 2 => cases hn
  have hempty : (runTrack 100 66 [0, 99]).nackReceiver.queue = [] := by decide +kernel
  have hmissing : Missing [0, 99] 1 :=
    ⟨by decide, ⟨0, by decide, by decide⟩, 99, by decide, by decide⟩
  have hmem := (h [0, 99] hwithin (seqOf 1)).mpr ⟨1, hmissing, rfl⟩
  rw [hempty] at hmem
  exact List.not_mem_nil hmem

end SrsChatRoom.App
