import HybridHeap.Proofs.Chronicle
import Mathlib.Data.List.Infix
import Mathlib.Data.List.Nodup

/-!
# The order of deaths

How the order in which finalizers are queued goes with the order in which their keys lose their
payload. A lite sweep queues the finalizers of one key and then drops its payload, before it comes
to the next. A full collection first queues the finalizers of all keys that it has not found, slot
by slot, and drops their payloads afterwards, so of the finalizers that it queues only this can be
said: that they were queued in the order of their slots.

`Deaths` says so of a line of finalizers, those queued and those on their way to the queue. Like the
parts of the chronicle it mentions no heap, and comes with one lemma for each way in which what it
is about changes. A key whose finalizer is in line is `Due` as long as it has its payload, and
before the line grows again none is.
-/

namespace HybridHeap

open Collector

/-- The payload of the node has been dropped by then. -/
def Lost (history : History) (n : NodeId) : Prop := (n, Fate.started) ∈ history

instance (history : History) (n : NodeId) : Decidable (Lost history n) :=
  inferInstanceAs (Decidable (_ ∈ _))

/-- There was a time when the payload of the first node had been dropped and that of the second had
not. -/
def DiedBefore (history : History) (m n : NodeId) : Prop :=
  ∃ earlier ∈ history.tails, Lost earlier m ∧ ¬Lost earlier n

instance (history : History) (m n : NodeId) : Decidable (DiedBefore history m n) :=
  inferInstanceAs (Decidable (∃ earlier ∈ _, _))

/-- The finalizer was given to a weak reference that was put into the slot. -/
def Given (makings : List (Nat × Making)) (i slot : Nat) (m : Making) : Prop :=
  (slot, m) ∈ makings ∧ m.finalizer = some i

instance (makings : List (Nat × Making)) (i slot : Nat) (m : Making) :
    Decidable (Given makings i slot m) := inferInstanceAs (Decidable (_ ∧ _))

/-- One full collection has queued both finalizers while it was marking: no payload was dropped in
between. -/
structure Together (x y : Queueing) : Prop where
  left : x.phase = .marking
  right : y.phase = .marking
  lost : ∀ n, Lost x.history n ↔ Lost y.history n

/-- Of two finalizers the one on the left was queued after the other: by then the key of the other
had lost its payload, if it was another key and not one full collection has queued both. -/
def InTurn (makings : List (Nat × Making)) (x y : Queueing) : Prop :=
  ∀ slot m slot' m', Given makings x.finalizer slot m → Given makings y.finalizer slot' m' →
    m.key ≠ m'.key → Lost x.history m'.key ∨ Together x y ∧ slot' < slot

/-- The finalizers queued and those on their way to the queue, the one that is last in front. -/
def inLine (history : History) (phase : Phase) (queueings : List Queueing) (parting : List Nat) :
    List Queueing :=
  (parting.map (⟨·, history, phase⟩)).reverse ++ queueings

theorem mem_inLine {history : History} {phase : Phase} {queueings : List Queueing}
    {parting : List Nat} {x : Queueing} : x ∈ inLine history phase queueings parting ↔
      (∃ i ∈ parting, x = ⟨i, history, phase⟩) ∨ x ∈ queueings := by
  unfold inLine
  simp only [List.mem_append, List.mem_reverse, List.mem_map, eq_comm]

/-- The payload of the node is about to be dropped, if it has not been. -/
inductive Due (loose dropping : List NodeId) (kept : Option (List (NodeId × Bool)))
    (live : List NodeId) (n : NodeId) : Prop where
  /-- The node has been taken off its list. -/
  | loose (hn : n ∈ loose)
  /-- The node has been marked as detached. -/
  | dropping (hn : n ∈ dropping)
  /-- A full collection that is sweeping has not come to the node yet. -/
  | listed (hkept : kept ≠ none) (hn : n ∈ live)

/-- What is on the live list matters only while a full collection is sweeping. -/
theorem Due.relist {loose dropping live live' : List NodeId} {kept : Option (List (NodeId × Bool))}
    {n : NodeId} (hn : Due loose dropping kept live n)
    (hlive : kept ≠ none → n ∈ live → n ∈ live') : Due loose dropping kept live' n := by
  cases hn with
  | loose hn => exact .loose hn
  | dropping hn => exact .dropping hn
  | listed hkept hn => exact .listed hkept (hlive hkept hn)

/-- How the line of finalizers goes with the order of deaths. -/
structure Deaths (history : History) (phase : Phase) (makings : List (Nat × Making)) (given : Nat)
    (queued : List Nat) (queueings : List Queueing) (parting : List Nat) (due : NodeId → Prop) :
    Prop where
  /-- Finalizers are numbered in the order in which they were given. -/
  numbered : (makings.filterMap fun x => x.2.finalizer) = (List.range given).reverse
  queued : queueings.map Queueing.finalizer = queued
  since : ∀ x ∈ inLine history phase queueings parting, x.history <:+ history
  /-- A finalizer that was given in time is queued before the key loses its payload. -/
  alive : ∀ x ∈ inLine history phase queueings parting, ∀ slot m,
    Given makings x.finalizer slot m → m.InTime → ¬Lost x.history m.key
  order : (inLine history phase queueings parting).Pairwise (InTurn makings)
  due : ∀ x ∈ inLine history phase queueings parting, ∀ slot m,
    Given makings x.finalizer slot m → Lost history m.key ∨ due m.key

/-- The entries of a table come in the order of their slots. -/
theorem SlotTable.pairwise_entries {α : Type} (t : SlotTable α) :
    t.entries.Pairwise fun x y => x.1 < y.1 := by
  unfold entries
  have hindices : t.slots.toList.zipIdx.Pairwise fun x y => x.2 < y.2 :=
    List.pairwise_iff_getElem.2 fun i j hi hj hij => by simpa using hij
  refine List.Pairwise.filterMap _ (fun x y hxy a ha b hb => ?_) hindices
  obtain ⟨_, -, rfl⟩ := Option.map_eq_some_iff.1 ha
  obtain ⟨_, -, rfl⟩ := Option.map_eq_some_iff.1 hb
  exact hxy

/-- Two members of a list stand in it one before the other. -/
theorem pair_sublist_or {α : Type} {l : List α} {x y : α} (hx : x ∈ l) (hy : y ∈ l)
    (hne : x ≠ y) : [x, y].Sublist l ∨ [y, x].Sublist l := by
  obtain ⟨as, bs, rfl⟩ := List.append_of_mem hx
  obtain hy | hy := List.mem_append.1 hy
  · right
    exact (List.singleton_sublist.2 hy).append (List.singleton_sublist.2 List.mem_cons_self)
  · left
    have hy' : y ∈ bs := (List.mem_cons.1 hy).resolve_left (Ne.symm hne)
    exact ((List.singleton_sublist.2 hy').cons_cons x).trans (List.sublist_append_right _ _)

namespace Deaths

variable {history : History} {phase phase' : Phase} {makings : List (Nat × Making)} {given : Nat}
  {queued : List Nat} {queueings : List Queueing} {parting : List Nat} {due due' : NodeId → Prop}

theorem empty : Deaths [] phase [] 0 [] [] [] due where
  numbered := rfl
  queued := rfl
  since := fun x hx => by cases hx
  alive := fun x hx => by cases hx
  order := List.Pairwise.nil
  due := fun x hx => by cases hx

/-- A finalizer is given to one weak reference only. -/
theorem given_unique (hd : Deaths history phase makings given queued queueings parting due)
    {i slot slot' : Nat} {m m' : Making} (hi : Given makings i slot m)
    (hj : Given makings i slot' m') : (slot, m) = (slot', m') := by
  by_contra hne
  have hnodup : (makings.filterMap fun x => x.2.finalizer).Nodup := by
    rw [hd.numbered]
    exact List.nodup_reverse.2 List.nodup_range
  -- The number would be there twice, in whichever order the two were made.
  obtain hpair | hpair := pair_sublist_or hi.1 hj.1 hne
  all_goals
    have htwice := hnodup.sublist (hpair.filterMap _)
    simp [hi.2, hj.2] at htwice

/-- Other nodes may be about to lose their payload, if those that were are so still or have lost
it. -/
theorem change (hd : Deaths history phase makings given queued queueings parting due)
    (hdue : ∀ n, due n → Lost history n ∨ due' n) :
    Deaths history phase makings given queued queueings parting due' :=
  { hd with
    due := fun x hx slot m hm => (hd.due x hx slot m hm).elim .inl (hdue _) }

/-- Something befalls a node while no finalizer is on its way to the queue. -/
theorem record (hd : Deaths history phase makings given queued queueings [] due)
    (x : NodeId × Fate) : Deaths (x :: history) phase makings given queued queueings [] due :=
  { hd with
    since := fun y hy => (hd.since y hy).trans (List.suffix_cons x history)
    due := fun y hy slot m hm =>
      (hd.due y hy slot m hm).imp_left fun hlost => List.mem_cons_of_mem x hlost }

/-- The collector enters another phase while no finalizer is on its way to the queue. -/
theorem enterPhase (hd : Deaths history phase makings given queued queueings [] due) :
    Deaths history phase' makings given queued queueings [] due :=
  { hd with }

/-- A finalizer that is given to a new weak reference is not in line. -/
theorem insert {weak : SlotTable WeakEntry} {pending : List Finalizer} {c : Chronicle}
    (hd : Deaths history phase c.makings c.given c.queued c.queueings parting due)
    (hl : Ledger weak pending c parting) {slot : Nat} {m : Making}
    (hnumber : ∀ i, m.finalizer = some i → i = c.given) :
    Deaths history phase (c.make slot m).makings (c.make slot m).given c.queued c.queueings parting
      due := by
  have hnew : ∀ x ∈ inLine history phase c.queueings parting, ∀ slot' m',
      Given ((slot, m) :: c.makings) x.finalizer slot' m' →
        Given c.makings x.finalizer slot' m' := by
    rintro x hx slot' m' ⟨hmem, hi⟩
    refine ⟨(List.mem_cons.1 hmem).resolve_left fun heq => ?_, hi⟩
    cases heq
    -- The ledger has it in its place already, and the next number is not given out yet.
    have hplaced : x.finalizer ∈ parting ∨ x.finalizer ∈ c.queued := by
      obtain ⟨i, hmem, rfl⟩ | hx := mem_inLine.1 hx
      · exact .inl hmem
      · exact .inr (hd.queued ▸ List.mem_map_of_mem hx)
    have hrange : x.finalizer ∈ List.range c.given := by
      rw [hl.places.mem_iff]
      simp only [List.mem_append]
      tauto
    rw [hnumber x.finalizer hi, List.mem_range] at hrange
    exact Nat.lt_irrefl _ hrange
  exact
    { numbered := by
        show (((slot, m) :: c.makings).filterMap fun x => x.2.finalizer) =
          (List.range (c.given + m.finalizer.toList.length)).reverse
        cases hi : m.finalizer with
        | none => simpa [hi] using hd.numbered
        | some i =>
          rw [List.filterMap_cons_some (by exact hi), hd.numbered, hnumber i hi]
          simp [List.range_succ]
      queued := hd.queued
      since := hd.since
      alive := fun x hx slot' m' hm => hd.alive x hx slot' m' (hnew x hx slot' m' hm)
      order := hd.order.imp_of_mem fun hx hy hturn s m s' m' hm hm' =>
        hturn s m s' m' (hnew _ hx s m hm) (hnew _ hy s' m' hm')
      due := fun x hx slot' m' hm => hd.due x hx slot' m' (hnew x hx slot' m' hm) }

/-- Queueing a finalizer leaves the line as it is. -/
theorem enqueue {finalizer : Option Nat}
    (hd : Deaths history phase makings given queued queueings (finalizer.toList ++ parting) due) :
    Deaths history phase makings given (finalizer.toList ++ queued)
      (finalizer.toList.map (⟨·, history, phase⟩) ++ queueings) parting due := by
  -- It has been the next on its way, and nothing has befallen any node since the entry expired.
  have hline : inLine history phase (finalizer.toList.map (⟨·, history, phase⟩) ++ queueings)
      parting = inLine history phase queueings (finalizer.toList ++ parting) := by
    cases finalizer <;> simp [inLine]
  refine ⟨hd.numbered, ?_, ?_, ?_, ?_, ?_⟩
  · rw [← hd.queued]
    cases finalizer <;> simp
  all_goals rw [hline]
  · exact hd.since
  · exact hd.alive
  · exact hd.order
  · exact hd.due

section

variable {weak : SlotTable WeakEntry} {pending : List Finalizer} {c : Chronicle}
  {p : Nat → WeakEntry → Bool}

/-- A finalizer left of an expired entry was given to the reference in the entry's slot. -/
theorem entry_of_given
    (hd : Deaths history phase c.makings c.given c.queued c.queueings parting due)
    (hl : Ledger weak pending c parting)
    (hhollow : ∀ e ∈ weak.toList, e.key = none → e = hollow) {e : WeakEntry} {s i slot : Nat}
    {m : Making} (he : weak.get? s = some e) (hi : e.number? = some i)
    (hm : Given c.makings i slot m) :
    slot = s ∧ e.key = some m.key ∧ c.making? s = some m := by
  obtain ⟨m', hm', hkeyed⟩ := hl.made s e he
  cases hkey : e.key with
  | none =>
    rw [hhollow e (SlotTable.mem_toList.2 ⟨s, he⟩) hkey] at hi
    cases hi
  | some key =>
    obtain ⟨rfl, hfinalizer⟩ := hkeyed key hkey
    have hmem : (s, m') ∈ c.makings := by
      obtain ⟨newer, older, hmakings, -⟩ := List.lookup_eq_some_iff.1 hm'
      rw [hmakings]
      exact List.mem_append_right _ List.mem_cons_self
    cases hd.given_unique hm ⟨hmem, hfinalizer.trans hi⟩
    exact ⟨rfl, rfl, hm'⟩

/-- A finalizer that is left when entries expire was given to the reference in the slot of one of
them. -/
theorem entry_of_expired
    (hd : Deaths history phase c.makings c.given c.queued c.queueings parting due)
    (hl : Ledger weak pending c parting)
    (hhollow : ∀ e ∈ weak.toList, e.key = none → e = hollow) {i slot : Nat} {m : Making}
    (hi : i ∈ (expired p weak).filterMap Expired.number?) (hm : Given c.makings i slot m) :
    ∃ e, weak.get? slot = some e ∧ p slot e = true ∧ e.key = some m.key ∧
      c.making? slot = some m := by
  obtain ⟨x, hx, hnumber⟩ := List.mem_filterMap.1 hi
  obtain ⟨⟨s, e⟩, he, rfl⟩ := List.mem_map.1 hx
  obtain ⟨he, hp⟩ := List.mem_filter.1 he
  have hget := SlotTable.mem_entries.1 he
  obtain ⟨rfl, hkey, hmaking⟩ := hd.entry_of_given hl hhollow hget hnumber hm
  exact ⟨e, hget, hp, hkey, hmaking⟩

/-- The finalizers left of entries that expire are in turn, if the entries have one key or a full
collection is marking. -/
theorem pairwise_expired
    (hd : Deaths history phase c.makings c.given c.queued c.queueings parting due)
    (hl : Ledger weak pending c parting)
    (hhollow : ∀ e ∈ weak.toList, e.key = none → e = hollow)
    (halike : phase = .marking ∨
      ∃ n, ∀ slot e, weak.get? slot = some e → p slot e = true → e.key = some n) :
    ((expired p weak).filterMap Expired.number?).Pairwise fun i j =>
      InTurn c.makings ⟨j, history, phase⟩ ⟨i, history, phase⟩ := by
  unfold expired
  rw [List.filterMap_map]
  refine List.Pairwise.filterMap _ ?_
    ((weak.pairwise_entries.filter fun x => p x.1 x.2).imp_of_mem
      (S := fun x y => (x ∈ weak.entries ∧ p x.1 x.2 = true) ∧
        (y ∈ weak.entries ∧ p y.1 y.2 = true) ∧ x.1 < y.1)
      fun hx hy hlt => ⟨List.mem_filter.1 hx, List.mem_filter.1 hy, hlt⟩)
  rintro ⟨s, e⟩ ⟨s', e'⟩ ⟨⟨he, hp⟩, ⟨he', hp'⟩, hlt⟩ i hi j hj slot m slot' m' hm hm' hne
  rw [SlotTable.mem_entries] at he he'
  obtain ⟨rfl, hkey', -⟩ := hd.entry_of_given hl hhollow he' hj hm
  obtain ⟨rfl, hkey, -⟩ := hd.entry_of_given hl hhollow he hi hm'
  obtain hmarking | ⟨n, hn⟩ := halike
  · -- Nothing befalls any node while a full collection queues finalizers.
    exact .inr ⟨⟨hmarking, hmarking, fun _ => Iff.rfl⟩, hlt⟩
  · have hsame : some m.key = some m'.key := calc
      some m.key = e'.key := hkey'.symm
      _ = some n := hn _ _ he' hp'
      _ = e.key := (hn _ _ he hp).symm
      _ = some m'.key := hkey
    exact absurd (Option.some.inj hsame) hne

/-- When entries expire, their finalizers are in line behind those whose keys have all lost their
payload by then. Either a full collection is marking or the entries have one key. -/
theorem expire (hd : Deaths history phase c.makings c.given c.queued c.queueings [] due)
    (hl : Ledger weak pending c [])
    (hhollow : ∀ e ∈ weak.toList, e.key = none → e = hollow)
    (hlost : ∀ x ∈ c.queueings, ∀ slot m, Given c.makings x.finalizer slot m →
      Lost history m.key)
    (hkeys : ∀ slot e m, weak.get? slot = some e → p slot e = true → e.key = some m.key →
      c.making? slot = some m →
        (m.InTime → ¬Lost history m.key) ∧ (Lost history m.key ∨ due' m.key))
    (halike : phase = .marking ∨
      ∃ n, ∀ slot e, weak.get? slot = some e → p slot e = true → e.key = some n) :
    Deaths history phase c.makings c.given c.queued c.queueings
      ((expired p weak).filterMap Expired.number?) due' where
  numbered := hd.numbered
  queued := hd.queued
  since := fun x hx => by
    obtain ⟨i, -, rfl⟩ | hx := mem_inLine.1 hx
    · exact List.suffix_refl _
    · exact hd.since x hx
  alive := fun x hx slot m hm => by
    obtain ⟨i, hi, rfl⟩ | hx := mem_inLine.1 hx
    · obtain ⟨e, he, hp, hkey, hmaking⟩ := hd.entry_of_expired hl hhollow hi hm
      exact (hkeys slot e m he hp hkey hmaking).1
    · exact hd.alive x hx slot m hm
  order := by
    -- Those that were queued before are in turn since their keys are dead by now.
    refine List.pairwise_append.2
      ⟨?_, hd.order, fun x hx y hy slot m slot' m' _ hm' _ => .inl ?_⟩
    · rw [List.pairwise_reverse, List.pairwise_map]
      exact hd.pairwise_expired hl hhollow halike
    · obtain ⟨i, -, rfl⟩ := List.mem_map.1 (List.mem_reverse.1 hx)
      exact hlost y hy slot' m' hm'
  due := fun x hx slot m hm => by
    obtain ⟨i, hi, rfl⟩ | hx := mem_inLine.1 hx
    · obtain ⟨e, he, hp, hkey, hmaking⟩ := hd.entry_of_expired hl hhollow hi hm
      exact (hkeys slot e m he hp hkey hmaking).2
    · exact .inl (hlost x hx slot m hm)

end

section

variable {x y : Queueing} {slot slot' : Nat} {m m' : Making}

/-- A finalizer that was given in time is queued before the key loses its payload. -/
theorem not_lost (hd : Deaths history phase makings given queued queueings [] due)
    (hx : x ∈ queueings) (hm : Given makings x.finalizer slot m) (htime : m.InTime) :
    ¬Lost x.history m.key := hd.alive x hx slot m hm htime

/-- Of two finalizers with different keys one was queued first, and the other in its turn. -/
theorem queued_or (hd : Deaths history phase makings given queued queueings [] due)
    (hx : x ∈ queueings) (hy : y ∈ queueings) (hm : Given makings x.finalizer slot m)
    (hm' : Given makings y.finalizer slot' m') (hne : m.key ≠ m'.key) :
    [y.finalizer, x.finalizer].Sublist queued ∨
      [x.finalizer, y.finalizer].Sublist queued ∧
        (Lost x.history m'.key ∨ Together x y ∧ slot' < slot) := by
  have hxy : x ≠ y := by
    rintro rfl
    cases hd.given_unique hm hm'
    exact hne rfl
  rw [← hd.queued]
  obtain hpair | hpair := pair_sublist_or hx hy hxy
  · have hturn : InTurn makings x y := List.pairwise_pair.1 (hd.order.sublist hpair)
    exact .inr ⟨hpair.map _, hturn slot m slot' m' hm hm' hne⟩
  · exact .inl (hpair.map _)

/-- If the finalizer of the key that died first was queued before it did, it is the first of two
finalizers to be queued, unless one full collection has queued both. -/
theorem queued_in_order (hd : Deaths history phase makings given queued queueings [] due)
    (hx : x ∈ queueings) (hy : y ∈ queueings) (hm : Given makings x.finalizer slot m)
    (hm' : Given makings y.finalizer slot' m') (hne : m.key ≠ m'.key)
    (halive : ¬Lost x.history m.key) (hapart : ¬Together x y)
    (hdied : DiedBefore history m.key m'.key) : [y.finalizer, x.finalizer].Sublist queued := by
  obtain hqueued | ⟨-, hturn⟩ := hd.queued_or hx hy hm hm' hne
  · exact hqueued
  · -- The second key was dead when the finalizer of the first was queued, so the first was too.
    obtain ⟨earlier, hearlier, hlost, hwhole⟩ := hdied
    have hdead := hturn.resolve_right fun htogether => hapart htogether.1
    obtain hsuffix | hsuffix :=
      List.suffix_or_suffix_of_suffix ((List.mem_tails _ _).1 hearlier) (hd.since x hx)
    · exact absurd (hsuffix.subset hlost) halive
    · exact absurd (hsuffix.subset hdead) hwhole

/-- Two finalizers that one full collection has queued were queued in the order of their slots, if
they were queued before their keys died. -/
theorem queued_by_slot (hd : Deaths history phase makings given queued queueings [] due)
    (hx : x ∈ queueings) (hy : y ∈ queueings) (hm : Given makings x.finalizer slot m)
    (hm' : Given makings y.finalizer slot' m') (hne : m.key ≠ m'.key)
    (halive' : ¬Lost y.history m'.key) (htogether : Together x y) (hslot : slot < slot') :
    [y.finalizer, x.finalizer].Sublist queued := by
  obtain hqueued | ⟨-, hdead | ⟨-, hslot'⟩⟩ := hd.queued_or hx hy hm hm' hne
  · exact hqueued
  · exact absurd ((htogether.lost m'.key).1 hdead) halive'
  · omega

end

end Deaths

end HybridHeap
