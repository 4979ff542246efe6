import Muduo.Transitions
import Muduo.EventDispatch

/-!
# `EpollPoller::poll`

`epoll_wait` fills at most `events_.size()` entries, and `poll` doubles the array whenever
it comes back full.  The kernel takes the ready descriptors from the head of its list and
puts them, level-triggered, back at the end.  So a descriptor that stays ready waits for at
most logarithmically many polls, however many others are ready with it.
-/

namespace Muduo

open Transitions

def kInitEvnetListSize : Nat := 16

/-- A registered descriptor on the kernel's ready list. -/
structure EpollItem where
  fd : Nat
  data : ChannelPtr
deriving DecidableEq

/-- `epoll_wait`: what it reports, and the ready list it leaves.  It fails with `EINVAL`
    when `maxevents` is not positive. -/
def epollWait (rdllist : List EpollItem) (maxevents : Int) :
    Option (List EpollItem × List EpollItem) :=
  if maxevents ≤ 0 then
    none
  else
    let n := maxevents.toNat
    some (rdllist.take n, rdllist.drop n ++ rdllist.take n)

/-- `events_.size()` and the kernel's ready list. -/
structure Polling where
  events_ : Nat
  rdllist : List EpollItem

inductive PollEvent where
  | ready (item : EpollItem)
  /-- The descriptor is no longer ready, or no longer registered. -/
  | unready (fd : Nat)
  /-- `poll()`, with the masks that the descriptors have then. -/
  | poll (masks : Nat → EventMask)
  /-- A `poll()` whose `epoll_wait` is interrupted, or runs out of time. -/
  | interrupted

namespace Polling

def start : Polling := ⟨kInitEvnetListSize, []⟩

/-- What the next `epoll_wait` reports. -/
def reported (s : Polling) : List EpollItem :=
  ((epollWait s.rdllist (Int.bmod s.events_ (2 ^ 32))).map Prod.fst).getD []

/-- The rest of `poll` after `epoll_wait`, with what it hands to `fillActivChannels`. -/
def fill (s : Polling) (masks : Nat → EventMask) :
    Option (List EpollItem × List EpollItem) → List EpollEvent × Polling
  | none => ([], s)
  | some (items, rdllist) =>
    let numEvents := items.length
    (items.map fun item => ⟨masks item.fd, item.data⟩,
      { events_ := if 0 < numEvents ∧ numEvents = s.events_ then s.events_ * 2 else s.events_
        rdllist := rdllist })

def poll (s : Polling) (masks : Nat → EventMask) : List EpollEvent × Polling :=
  s.fill masks (epollWait s.rdllist (Int.bmod s.events_ (2 ^ 32)))

def step (s : Polling) : PollEvent → Option Polling
  | .ready item =>
    if item.fd ∈ s.rdllist.map EpollItem.fd then
      none
    else
      some { s with rdllist := s.rdllist ++ [item] }
  | .unready fd => some { s with rdllist := s.rdllist.filter fun item => item.fd ≠ fd }
  | .poll masks => some (s.poll masks).2
  | .interrupted => some s

/-- The polls that are not interrupted. -/
def polls (es : List PollEvent) : Nat :=
  es.countP fun e => match e with
    | .poll _ => true
    | _ => false

/-! ### One poll -/

/-- The size of the array is an `int` when `epoll_wait` gets it. -/
structure Sized (s : Polling) : Prop where
  least : kInitEvnetListSize ≤ s.events_
  fits : s.events_ < 2 ^ 31

theorem Sized.maxevents {s : Polling} (h : s.Sized) :
    Int.bmod s.events_ (2 ^ 32) = s.events_ := by
  have hleast := h.least
  have hfits := h.fits
  apply Int.bmod_eq_of_le <;> omega

theorem Sized.epollWait {s : Polling} (h : s.Sized) :
    epollWait s.rdllist (Int.bmod s.events_ (2 ^ 32)) =
      some (s.rdllist.take s.events_, s.rdllist.drop s.events_ ++ s.rdllist.take s.events_) := by
  have hpos : ¬ (s.events_ : Int) ≤ 0 := by
    have hleast : 16 ≤ s.events_ := h.least
    omega
  rw [h.maxevents, Muduo.epollWait, if_neg hpos, Int.toNat_natCast]

theorem Sized.reported {s : Polling} (h : s.Sized) : s.reported = s.rdllist.take s.events_ := by
  rw [Polling.reported, h.epollWait]
  rfl

/-- A poll turns the ready list, and doubles the array if the list fills it. -/
theorem Sized.poll {s : Polling} (h : s.Sized) (masks : Nat → EventMask) :
    (s.poll masks).2 = ⟨if s.events_ ≤ s.rdllist.length then s.events_ * 2 else s.events_,
      s.rdllist.drop s.events_ ++ s.rdllist.take s.events_⟩ := by
  have hleast : 16 ≤ s.events_ := h.least
  have hfull : (0 < min s.events_ s.rdllist.length ∧
      min s.events_ s.rdllist.length = s.events_) ↔ s.events_ ≤ s.rdllist.length := by
    omega
  rw [Polling.poll, h.epollWait]
  simp only [fill, List.length_take, hfull]

/-! ### The size of the array -/

/-- The array is at most twice as long as the ready list has been. -/
structure Small (peak : Nat) (s : Polling) : Prop extends Sized s where
  small : s.events_ ≤ max kInitEvnetListSize (2 * peak)

theorem Small.step {peak : Nat} {s t : Polling} {e : PollEvent} (hpeak : peak < 2 ^ 30)
    (h : s.Small peak) (hfew : s.rdllist.length ≤ peak) (hstep : s.step e = some t) :
    t.Small peak := by
  obtain ⟨⟨hleast, hfits⟩, hsmall⟩ := h
  cases e with
  | ready item =>
    simp only [Polling.step, Option.ite_none_left_eq_some, Option.some.injEq] at hstep
    obtain ⟨_, rfl⟩ := hstep
    exact ⟨⟨hleast, hfits⟩, hsmall⟩
  | unready fd =>
    cases hstep
    exact ⟨⟨hleast, hfits⟩, hsmall⟩
  | poll masks =>
    obtain rfl : (s.poll masks).2 = t := Option.some.inj hstep
    rw [Sized.poll ⟨hleast, hfits⟩]
    split
    · refine ⟨⟨by simp only; omega, by simp only; omega⟩, ?_⟩
      exact le_max_of_le_right (by simp only; omega)
    · exact ⟨⟨hleast, hfits⟩, hsmall⟩
  | interrupted =>
    cases hstep
    exact ⟨⟨hleast, hfits⟩, hsmall⟩

theorem start_small (peak : Nat) : start.Small peak :=
  ⟨⟨le_refl _, by decide⟩, le_max_left _ _⟩

/-! ### Waiting -/

/-- An item that is not among the first `n` moves `n` places ahead. -/
theorem idxOf_turn {item : EpollItem} {l : List EpollItem} {n : Nat} (hmem : item ∈ l)
    (hnot : item ∉ l.take n) :
    n ≤ l.length ∧ (l.drop n ++ l.take n).idxOf item + n = l.idxOf item := by
  have hdrop : item ∈ l.drop n := by
    rw [← List.take_append_drop n l, List.mem_append] at hmem
    exact hmem.resolve_left hnot
  have hn : n ≤ l.length := by
    by_contra hlong
    rw [List.drop_eq_nil_of_le (by omega)] at hdrop
    cases hdrop
  refine ⟨hn, ?_⟩
  rw [List.idxOf_append_of_mem hdrop]
  conv_rhs => rw [← List.take_append_drop n l, List.idxOf_append_of_notMem hnot]
  rw [List.length_take, Nat.min_eq_left hn, Nat.add_comm]

/-- Taking others out moves an item ahead, if at all. -/
theorem idxOf_filter_le {item : EpollItem} {p : EpollItem → Bool} (hitem : p item = true)
    (l : List EpollItem) : (l.filter p).idxOf item ≤ l.idxOf item := by
  induction l with
  | nil => simp
  | cons other rest ih =>
    by_cases hother : other = item
    · subst hother
      simp [hitem]
    · rw [List.idxOf_cons_ne rest hother, List.filter_cons]
      split
      · rw [List.idxOf_cons_ne _ hother]
        omega
      · omega

/-- The item has not been reported for `n` polls: the array has doubled each time, and the
    places that the item has moved ahead are what the array has grown by. -/
structure Waits (item : EpollItem) (size index n : Nat) (s : Polling) : Prop where
  waiting : item ∈ s.rdllist
  doubled : size * 2 ^ n ≤ s.events_
  ahead : s.rdllist.idxOf item + s.events_ ≤ index + size

theorem Waits.step {item : EpollItem} {size index : Nat} {es : List PollEvent} {s t : Polling}
    {e : PollEvent} (h : s.Waits item size index (polls es)) (hsized : s.Sized)
    (hstays : e ≠ .unready item.fd) (hunseen : ∀ masks, e = .poll masks → item ∉ s.reported)
    (hstep : s.step e = some t) : t.Waits item size index (polls (es ++ [e])) := by
  obtain ⟨hwaiting, hdoubled, hahead⟩ := h
  rw [polls, List.countP_append]
  cases e with
  | ready other =>
    simp only [Polling.step, Option.ite_none_left_eq_some, Option.some.injEq] at hstep
    obtain ⟨_, rfl⟩ := hstep
    refine ⟨List.mem_append_left _ hwaiting, hdoubled, ?_⟩
    rw [List.idxOf_append_of_mem hwaiting]
    exact hahead
  | unready fd =>
    cases hstep
    have hkeep : decide (item.fd ≠ fd) = true := by
      apply decide_eq_true
      rintro rfl
      exact hstays rfl
    refine ⟨List.mem_filter.mpr ⟨hwaiting, hkeep⟩, hdoubled, le_trans ?_ hahead⟩
    exact Nat.add_le_add_right (idxOf_filter_le (p := fun item => item.fd ≠ fd) hkeep _) _
  | poll masks =>
    obtain rfl : (s.poll masks).2 = t := Option.some.inj hstep
    have hnot : item ∉ s.rdllist.take s.events_ := by
      rw [← hsized.reported]
      exact hunseen masks rfl
    obtain ⟨hfull, hturn⟩ := idxOf_turn hwaiting hnot
    rw [hsized.poll, if_pos hfull]
    refine ⟨?_, ?_, ?_⟩
    · rw [List.mem_append, or_comm, ← List.mem_append, List.take_append_drop]
      exact hwaiting
    · rw [List.countP_singleton, if_pos rfl, pow_succ, ← Nat.mul_assoc]
      exact Nat.mul_le_mul_right 2 hdoubled
    · simp only
      omega
  | interrupted =>
    cases hstep
    exact ⟨hwaiting, hdoubled, hahead⟩

/-- The item stays ready, and the poll does not report it. -/
def Misses (item : EpollItem) (peak : Nat) (s : Polling) (e : PollEvent) : Prop :=
  s.rdllist.length ≤ peak ∧ e ≠ .unready item.fd ∧ ∀ masks, e = .poll masks → item ∉ s.reported

theorem waits_run {item : EpollItem} {peak : Nat} {es : List PollEvent} {s t : Polling}
    (hpeak : peak < 2 ^ 30) (hsmall : s.Small peak) (hready : item ∈ s.rdllist)
    (hmisses : Along step (Misses item peak) s es) (hrun : Run step s es t) :
    t.Small peak ∧ t.Waits item s.events_ (s.rdllist.idxOf item) (polls es) := by
  induction es using List.reverseRecOn generalizing t with
  | nil =>
    cases hrun.eq_of_nil
    exact ⟨hsmall, hready, by simp [polls], le_refl _⟩
  | append_singleton es e ih =>
    obtain ⟨hfront, hlast⟩ := along_append.mp hmisses
    obtain ⟨u, hu, hone⟩ := hrun.split
    have hstep := hone.step_of_one
    obtain ⟨husmall, hwaits⟩ := ih hfront hu
    obtain ⟨hfew, hstays, hunseen⟩ := (hlast u hu).head
    exact ⟨husmall.step hpeak hfew hstep, hwaits.step husmall.toSized hstays hunseen hstep⟩

theorem small_run {peak : Nat} {es : List PollEvent} {s : Polling} (hpeak : peak < 2 ^ 30)
    (hfew : Along step (fun u _ => u.rdllist.length ≤ peak) start es)
    (hrun : Run step start es s) : s.Small peak :=
  (always_of_along (fun _ _ _ h => h.step hpeak) (start_small peak) hfew) es [] s
    (List.append_nil es).symm hrun

/-- What is reported is handed to `fillActivChannels`. -/
theorem mem_poll {s : Polling} {item : EpollItem} (masks : Nat → EventMask)
    (hitem : item ∈ s.reported) : ⟨masks item.fd, item.data⟩ ∈ (s.poll masks).1 := by
  rw [Polling.poll]
  rw [Polling.reported] at hitem
  cases hwait : Muduo.epollWait s.rdllist (Int.bmod s.events_ (2 ^ 32)) with
  | none =>
    rw [hwait] at hitem
    cases hitem
  | some result =>
    rw [hwait] at hitem
    exact List.mem_map.mpr ⟨item, hitem, rfl⟩

end Polling

/-- **No ready channel waits long.**  In every run in which at most `peak` descriptors are
    ready at a time, the event array stays below twice that many, and a descriptor that
    stays ready is reported, and its channel handed to the loop, as soon as the doublings of
    the array exceed its place in the kernel's list. -/
theorem ready_channels_are_reported (peak : Nat) (es : List PollEvent) (s : Polling)
    (hpeak : peak < 2 ^ 30)
    (hfew : Along Polling.step (fun u _ => u.rdllist.length ≤ peak) Polling.start es)
    (hrun : Run Polling.step Polling.start es s) :
    s.events_ ≤ max kInitEvnetListSize (2 * peak) ∧
      ∀ item ∈ s.rdllist, ∀ fs t, Run Polling.step s fs t →
        Along Polling.step (fun u _ => u.rdllist.length ≤ peak) s fs →
        .unready item.fd ∉ fs →
        s.rdllist.idxOf item < s.events_ * (2 ^ Polling.polls fs - 1) →
        ∃ pre masks post u, fs = pre ++ .poll masks :: post ∧ Run Polling.step s pre u ∧
          ⟨masks item.fd, item.data⟩ ∈ (u.poll masks).1 := by
  have hsmall := Polling.small_run hpeak hfew hrun
  refine ⟨hsmall.small, ?_⟩
  intro item hready fs t hrest hafter hstays hpolls
  by_contra hunseen
  have hmisses : Along Polling.step (Polling.Misses item peak) s fs := by
    intro pre e post u hfs hpre
    refine ⟨hafter pre e post u hfs hpre, ?_, ?_⟩
    · rintro rfl
      apply hstays
      rw [hfs]
      exact List.mem_append_right _ (List.mem_cons_self ..)
    · rintro masks rfl hitem
      exact hunseen ⟨pre, masks, post, u, hfs, hpre, Polling.mem_poll masks hitem⟩
  obtain ⟨_, hwaits⟩ := Polling.waits_run hpeak hsmall hready hmisses hrest
  -- the array has grown to more than the places that were ahead
  have hdoubled := hwaits.doubled
  have hahead := hwaits.ahead
  rw [Nat.mul_sub, Nat.mul_one] at hpolls
  omega

/-- Eighteen descriptors are ready: the first poll reports sixteen of them, the second all. -/
theorem ready_channels_are_reported_second_poll :
    ∃ s t, Run Polling.step Polling.start
        ((List.range 18).map fun fd => .ready ⟨fd, 100 + fd⟩) s ∧
      Run Polling.step s [.poll fun _ => EPOLLIN, .poll fun _ => EPOLLIN] t ∧
      s.events_ ≤ max kInitEvnetListSize (2 * 18) ∧
      ∃ pre masks post u, ([.poll fun _ => EPOLLIN, .poll fun _ => EPOLLIN] : List PollEvent) =
          pre ++ .poll masks :: post ∧ Run Polling.step s pre u ∧
        ⟨masks 17, 117⟩ ∈ (u.poll masks).1 := by
  obtain ⟨s, hrun, hs⟩ := exists_run Polling.step Polling.start
    ((List.range 18).map fun fd => .ready ⟨fd, 100 + fd⟩) (fun s => (s.events_, s.rdllist))
    (16, (List.range 18).map fun fd => ⟨fd, 100 + fd⟩) rfl
  obtain ⟨hevents, hlist⟩ := Prod.mk.inj hs
  have hfew : Along Polling.step (fun u _ => u.rdllist.length ≤ 18) Polling.start
      ((List.range 18).map (fun fd => .ready ⟨fd, 100 + fd⟩) ++
        [.poll fun _ => EPOLLIN, .poll fun _ => EPOLLIN]) := by
    decide
  obtain ⟨hbefore, hafter⟩ := along_append.mp hfew
  obtain ⟨hsize, hreported⟩ := ready_channels_are_reported 18 _ s (by decide) hbefore hrun
  refine ⟨s, _, hrun, rfl, hsize,
    hreported ⟨17, 117⟩ ?_ _ _ rfl (hafter s hrun) (by simp) ?_⟩
  · rw [hlist]
    decide
  · rw [hlist, hevents]
    decide

end Muduo
