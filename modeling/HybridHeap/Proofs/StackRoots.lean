import HybridHeap.Proofs.Leaving
import HybridHeap.Proofs.Running

/-!
# Registered stack roots

A stack root is registered while the entry of the root stack at its index designates its node. A
script may take, retarget and drop stack roots, take snapshots and restore them in any order; a
restore discards the entries above the depth that it cuts the stack to, but the handles stay. Such a
leftover is told from a registered stack root by its index and its node alone, so where a newer
stack root has both of them a leftover passes for it. Short of that, a stack root is registered from
when it is taken until it is dropped or its entry is discarded.
-/

namespace HybridHeap

/-- The stack roots that a mutator holds: name, node and index. -/
def Heap.stackRoots (h : Heap) : List (HandleName × NodeId × Nat) :=
  h.handles.filterMap fun
    | (name, .stackRoot n index) => some (name, n, index)
    | _ => none

namespace Act

variable {α : Type}

/-- Whether it returns or fails, the operation ends with `P`. -/
def EndsWith (x : Act α) (h : Heap) (P : Heap → Prop) : Prop := Leads x h (fun _ => P) fun _ => P

/-- What an operation ends with holds afterwards. -/
theorem EndsWith.holds {x : Act α} {h : Heap} {P : Heap → Prop} (hx : EndsWith x h P) :
    P (after (x h)) := Leads.after hx

end Act

namespace Mutator

open Act Collector

variable {h h' : Heap} {name target source : HandleName} {n : NodeId} {run : Runner} {fuel : Nat}

/-! ## Scripts -/

/-- A heap and the names of those of its stack roots whose entries were discarded since they were
taken. -/
structure Tenure where
  heap : Heap
  discarded : List HandleName

namespace Tenure

/-- A step that ends in the given heap. A handle that is dropped or lost is no longer held, and a
restore that leaves the root stack no deeper than the index of a stack root has discarded its
entry. -/
def advance (t : Tenure) (step : Step) (h' : Heap) : Tenure where
  heap := h'
  discarded := match step with
    | .drop name => t.discarded.filter (· ≠ name)
    | .forget name => t.discarded.filter (· ≠ name)
    | .restore _ => t.discarded ++
        (h'.stackRoots.filter fun x => h'.roots.stack.size ≤ x.2.2).map Prod.fst
    | _ => t.discarded

/-- Perform a step, whether it returns or fails. -/
def perform (run : Runner) (fuel : Nat) (t : Tenure) (step : Step) : Tenure :=
  t.advance step (after (Mutator.perform run fuel step t.heap))

/-- Perform steps in order. -/
def performAll (run : Runner) (fuel : Nat) (t : Tenure) (steps : List Step) : Tenure :=
  steps.foldl (perform run fuel) t

/-- Whether a name is that of a leftover that passes for a registered stack root: its entry was
discarded, and one for the same node is at its index now. -/
def passes (t : Tenure) (name : HandleName) : Bool :=
  t.discarded.contains name && t.heap.stackRoots.any fun x =>
    x.1 == name && t.heap.roots.stack[x.2.2]? == some x.2.1

/-- Whether a step leaves the root stack and the stack roots as they are. -/
def leaves (t : Tenure) (h' : Heap) : Bool :=
  h'.roots.stack == t.heap.roots.stack && h'.stackRoots == t.heap.stackRoots &&
    decide (h'.handles.map Prod.fst).Nodup

/-- A step that drops or retargets no leftover that passes for a registered stack root. Any step
that does not deal in stack roots or snapshots leaves them alone. -/
def isFair (run : Runner) (fuel : Nat) (t : Tenure) (step : Step) : Bool :=
  match step with
  | .drop name => !t.passes name
  | .retarget name _ => !t.passes name
  | .stackRoot _ _ | .stackRootFrom _ _ | .forget _ | .snapshot _ | .restore _ => true
  | _ => t.leaves (t.perform run fuel step).heap

/-- Steps that are fair when their turn comes. -/
def areFair (run : Runner) (fuel : Nat) (t : Tenure) : List Step → Bool
  | [] => true
  | step :: steps => t.isFair run fuel step && (t.perform run fuel step).areFair run fuel steps

end Tenure

/-! ## What the steps do to the root stack -/

/-- Nothing was done to the root stack, nor to what is held. -/
def Same (h h' : Heap) : Prop := h'.roots.stack = h.roots.stack ∧ h'.handles = h.handles

/-- A new entry is topmost, and a stack root is held at its index under a name that was unused. -/
def Pushed (name : HandleName) (n : NodeId) (h h' : Heap) : Prop :=
  h.handles.lookup name = none ∧ h'.roots.stack = h.roots.stack.push n ∧
    h'.handles = (name, .stackRoot n h.roots.stack.size) :: h.handles

/-- The entry of a registered stack root designates another node, and so does the handle. -/
def Retargeted (name : HandleName) (h h' : Heap) : Prop :=
  ∃ n m i, h.handles.lookup name = some (.stackRoot n i) ∧ h.roots.stack[i]? = some n ∧
    h'.roots.stack = h.roots.stack.setIfInBounds i m ∧
    h'.handles = (name, .stackRoot m i) :: h.without name

/-- The root stack after a handle has been dropped: without its topmost entry if the handle was a
stack root with the index and the node of that. -/
def stackWithout (stack : Array NodeId) : Handle → Array NodeId
  | .stackRoot n i => if stack[i]? = some n ∧ i + 1 = stack.size then stack.pop else stack
  | _ => stack

/-- A handle was dropped. -/
def Dropped (name : HandleName) (h h' : Heap) : Prop :=
  ∃ x, h.handles.lookup name = some x ∧ h'.roots.stack = stackWithout h.roots.stack x ∧
    h'.handles = h.without name

theorem handle_endsWith {α : Type} {f : Handle → Act α} {P : Heap → Prop}
    (hnone : h.handles.lookup name = none → P h)
    (hsome : ∀ x, h.handles.lookup name = some x → EndsWith (f x) h P) :
    EndsWith (handle name >>= f) h P := by
  unfold handle refuse EndsWith
  simp only [leads_bind, leads_view]
  cases hx : h.handles.lookup name with
  | none => exact hnone hx
  | some x => exact hsome x hx

theorem require_endsWith {α : Type} {p : Heap → Bool} {f : Unit → Act α} {P : Heap → Prop}
    (hP : P h) (hf : p h = true → EndsWith (f ()) h P) : EndsWith (require p >>= f) h P := by
  unfold require refuse EndsWith
  simp only [leads_bind, leads_view]
  cases hp : p h with
  | false => exact hP
  | true => exact hf hp

theorem registered_endsWith {α : Type} {i : Nat} {f : Unit → Act α} {P : Heap → Prop}
    (hP : ∀ h', Same h h' → P h') (hf : h.roots.stack[i]? = some n → EndsWith (f ()) h P) :
    EndsWith (requireRegistered n i >>= f) h P := by
  unfold requireRegistered EndsWith
  simp only [leads_bind, leads_view]
  split
  · exact hP _ ⟨rfl, rfl⟩
  · rename_i hentry
    exact hf (of_not_not hentry)

theorem refer_endsWith (name : HandleName) (n : NodeId) :
    EndsWith (refer name n (takeStackRoot n)) h fun h' => Same h h' ∨ Pushed name n h h' := by
  unfold refer
  refine require_endsWith (.inl ⟨rfl, rfl⟩) fun hunused => ?_
  exact .inr ⟨Option.isNone_iff_eq_none.1 hunused, rfl, rfl⟩

/-- Taking a stack root pushes an entry, if it does anything. -/
theorem perform_stackRoot_endsWith (name : HandleName) (n : NodeId) :
    EndsWith (Mutator.perform run fuel (.stackRoot name n)) h fun h' =>
      Same h h' ∨ Pushed name n h h' := by
  unfold Mutator.perform referTo EndsWith
  refine require_endsWith (.inl ⟨rfl, rfl⟩) fun _ => ?_
  refine leads_map.2 (require_endsWith (.inl ⟨rfl, rfl⟩) fun _ => ?_)
  exact refer_endsWith name n

/-- So does taking one on the target of an edge. -/
theorem perform_stackRootFrom_endsWith (name source : HandleName) :
    EndsWith (Mutator.perform run fuel (.stackRootFrom name source)) h fun h' =>
      Same h h' ∨ ∃ n, Pushed name n h h' := by
  unfold Mutator.perform referToTarget
  refine require_endsWith (.inl ⟨rfl, rfl⟩) fun _ => ?_
  refine leads_map.2 (handle_endsWith (fun _ => .inl ⟨rfl, rfl⟩) fun x _ => ?_)
  cases x with
  | edge n =>
    refine Leads.mono (refer_endsWith name n) ?_ ?_
    · exact fun _ _ hx => hx.imp_right fun hx => ⟨n, hx⟩
    · exact fun _ _ hx => hx.imp_right fun hx => ⟨n, hx⟩
  | _ => exact .inl ⟨rfl, rfl⟩

/-- Retargeting changes the entry of a registered stack root, if it does anything. -/
theorem perform_retarget_endsWith (name target : HandleName) :
    EndsWith (Mutator.perform run fuel (.retarget name target)) h fun h' =>
      Same h h' ∨ Retargeted name h h' := by
  unfold Mutator.perform silently retarget EndsWith
  refine leads_bind.2 (require_endsWith (.inl ⟨rfl, rfl⟩) fun _ => ?_)
  refine handle_endsWith (fun _ => .inl ⟨rfl, rfl⟩) fun x hx => ?_
  refine handle_endsWith (fun _ => .inl ⟨rfl, rfl⟩) fun y _ => ?_
  unfold EndsWith
  split
  · rename_i n i m _
    simp only [leads_bind, leads_view]
    split
    · exact .inl ⟨rfl, rfl⟩
    · refine registered_endsWith (fun _ hs => ?_) fun hentry => ?_
      · exact .inl hs
      · exact .inr ⟨n, m, i, hx, hentry, rfl, rfl⟩
  · exact .inl ⟨rfl, rfl⟩

/-- The root stack and what is held have nothing to do with counting. -/
theorem uncounted_stack : Uncounted fun h => (h.roots.stack, h.handles) where
  status := fun _ _ _ => rfl
  queue := fun _ _ => rfl
  log := fun _ _ => rfl

/-- What leaves both as they were does nothing to them. -/
theorem same_of_leaves {α : Type} {x : Act α}
    (hx : Leaves (fun h => (h.roots.stack, h.handles)) x) : EndsWith x h (Same h) :=
  (hx.leads h).mono (fun _ _ hk => Prod.mk.inj hk) fun _ _ hk => Prod.mk.inj hk

/-- Counting a reference down does nothing to the root stack, nor to what is held. -/
theorem decrement_endsWith (n : NodeId) : EndsWith (decrement n) h (Same h) :=
  same_of_leaves (leaves_decrement uncounted_stack n)

/-- Neither does counting several down. -/
theorem releaseAll_endsWith (ns : List NodeId) : EndsWith (releaseAll ns) h (Same h) :=
  same_of_leaves (leaves_releaseAll uncounted_stack ns)

/-- Dropping what a handle holds pops the topmost entry of the root stack at most. -/
theorem dropHandle_endsWith (x : Handle) :
    EndsWith (dropHandle x) h fun h' =>
      h'.roots.stack = stackWithout h.roots.stack x ∧ h'.handles = h.handles := by
  unfold dropHandle
  cases x with
  | stackRoot n i =>
    unfold dropStackRoot EndsWith stackWithout
    simp only [leads_bind, leads_view]
    by_cases hentry : h.roots.stack[i]? = some n
    · by_cases htop : i + 1 = h.roots.stack.size
      · simp [hentry, htop, Heap.modifyRoots]
      · simp [hentry, htop, Heap.log, Heap.emit]
    · simp [hentry]
  | edge n => exact decrement_endsWith n
  | erased n => exact decrement_endsWith n
  | root n slot =>
    unfold dropRoot EndsWith
    simp only [leads_bind, leads_update]
    exact decrement_endsWith n
  | weak slot =>
    unfold dropWeak EndsWith
    simp only [leads_bind, leads_view, leads_update]
    exact releaseAll_endsWith _
  | inhibitor => exact ⟨rfl, rfl⟩
  | snapshot s => exact ⟨rfl, rfl⟩
  | source s identifier => exact ⟨rfl, rfl⟩

/-- Dropping a handle does this if it does anything. -/
theorem perform_drop_endsWith (name : HandleName) :
    EndsWith (Mutator.perform run fuel (.drop name)) h fun h' =>
      h.handles.lookup name = none ∧ Same h h' ∨ Dropped name h h' := by
  unfold Mutator.perform silently dropNamed EndsWith
  refine leads_bind.2 (handle_endsWith (fun hnone => .inl ⟨hnone, rfl, rfl⟩) fun x hx => ?_)
  unfold release
  refine leads_bind.2 (leads_update.2 (Leads.mono (dropHandle_endsWith x) ?_ ?_))
  · exact fun _ _ hdropped => .inr ⟨x, hx, hdropped⟩
  · exact fun _ _ hdropped => .inr ⟨x, hx, hdropped⟩

/-- Losing a handle pops nothing. -/
theorem perform_forget_endsWith (name : HandleName) :
    EndsWith (Mutator.perform run fuel (.forget name)) h fun h' =>
      h.handles.lookup name = none ∧ Same h h' ∨ ∃ x, h.handles.lookup name = some x ∧
        h'.roots.stack = h.roots.stack ∧ h'.handles = h.without name := by
  unfold Mutator.perform silently forget EndsWith
  refine leads_bind.2 (handle_endsWith (fun hnone => .inl ⟨hnone, rfl, rfl⟩) fun x hx => ?_)
  exact .inr ⟨x, hx, rfl, rfl⟩

/-- Taking a snapshot leaves the root stack and the stack roots alone. -/
theorem perform_snapshot_endsWith (name : HandleName) :
    EndsWith (Mutator.perform run fuel (.snapshot name)) h fun h' =>
      Same h h' ∨ h.handles.lookup name = none ∧ h'.roots.stack = h.roots.stack ∧
        ∃ s, h'.handles = (name, .snapshot s) :: h.handles := by
  unfold Mutator.perform takeSnapshot EndsWith
  refine leads_bind.2 (require_endsWith (.inl ⟨rfl, rfl⟩) fun hunused => ?_)
  exact .inr ⟨Option.isNone_iff_eq_none.1 hunused, rfl, _, rfl⟩

/-- A restore cuts the root stack. -/
theorem perform_restore_endsWith (name : HandleName) :
    EndsWith (Mutator.perform run fuel (.restore name)) h fun h' =>
      (∃ depth, h'.roots.stack = h.roots.stack.take depth) ∧ h'.handles = h.handles := by
  have hsame : ∀ h', Same h h' →
      (∃ depth, h'.roots.stack = h.roots.stack.take depth) ∧ h'.handles = h.handles :=
    fun h' hs => ⟨⟨h.roots.stack.size, by simp [hs.1]⟩, hs.2⟩
  unfold Mutator.perform silently restore EndsWith
  refine leads_bind.2 (handle_endsWith (fun _ => hsame h ⟨rfl, rfl⟩) fun x _ => ?_)
  cases x with
  | snapshot s =>
    unfold restoreTo EndsWith
    simp only [leads_bind, leads_view]
    split
    · exact hsame _ ⟨rfl, rfl⟩
    · exact ⟨⟨s.stackRoots, rfl⟩, rfl⟩
  | _ => exact hsame h ⟨rfl, rfl⟩

/-! ## What a fair script keeps -/

theorem mem_stackRoots {i : Nat} :
    (name, n, i) ∈ h.stackRoots ↔ (name, .stackRoot n i) ∈ h.handles := by
  unfold Heap.stackRoots
  constructor
  · intro hmem
    obtain ⟨⟨other, x⟩, hx, heq⟩ := List.mem_filterMap.1 hmem
    cases x <;> simp_all
  · exact fun hmem => List.mem_filterMap.2 ⟨_, hmem, rfl⟩

/-- Names tell what is held apart; a stack root whose entry was not discarded is registered, and no
two of them are at one index. -/
structure Tenured (h : Heap) (discarded : List HandleName) : Prop where
  names : (h.handles.map Prod.fst).Nodup
  known : ∀ name ∈ discarded, ∃ n i, (name, n, i) ∈ h.stackRoots
  registered : ∀ name n i, (name, n, i) ∈ h.stackRoots → name ∉ discarded →
    h.roots.stack[i]? = some n
  apart : ∀ a b n m i, (a, n, i) ∈ h.stackRoots → (b, m, i) ∈ h.stackRoots → a ∉ discarded →
    b ∉ discarded → a = b

variable {discarded : List HandleName}

/-- The handle held under a name is the only one with the name. -/
theorem Tenured.eq_of_lookup (hk : Tenured h discarded) {x : Handle} {i : Nat}
    (hx : h.handles.lookup name = some x) (hmem : (name, n, i) ∈ h.stackRoots) :
    x = .stackRoot n i := by
  have hin : (name, x) ∈ h.handles := (Heap.perm_handles hx).mem_iff.2 List.mem_cons_self
  have heq := List.inj_on_of_nodup_map hk.names hin (mem_stackRoots.1 hmem) rfl
  exact congrArg Prod.snd heq

/-- What is left without it is held under other names, each once. -/
theorem Tenured.without (hk : Tenured h discarded) {x : Handle}
    (hx : h.handles.lookup name = some x) :
    name ∉ (h.without name).map Prod.fst ∧ ((h.without name).map Prod.fst).Nodup ∧
      ∀ a y, (a, y) ∈ h.without name ↔ (a, y) ∈ h.handles ∧ a ≠ name := by
  have hperm := Heap.perm_handles hx
  have hnodup := (hperm.map Prod.fst).nodup_iff.1 hk.names
  obtain ⟨hname, hnames⟩ := List.nodup_cons.1 hnodup
  refine ⟨hname, hnames, fun a y => ?_⟩
  rw [hperm.mem_iff, List.mem_cons]
  constructor
  · intro hy
    refine ⟨.inr hy, ?_⟩
    rintro rfl
    exact hname (List.mem_map.2 ⟨_, hy, rfl⟩)
  · rintro ⟨heq | hy, hne⟩
    · exact absurd (congrArg Prod.fst heq) hne
    · exact hy

/-- Names still tell things apart when something is held under an unused one. -/
theorem Tenured.names_cons (hk : Tenured h discarded) (hname : h.handles.lookup name = none)
    {x : Handle} : (((name, x) :: h.handles).map Prod.fst).Nodup := by
  rw [List.map_cons, List.nodup_cons]
  refine ⟨fun hmem => ?_, hk.names⟩
  obtain ⟨⟨a, y⟩, hy, rfl⟩ := List.mem_map.1 hmem
  simpa using List.lookup_eq_none_iff.1 hname _ hy

/-- Where the root stack and the stack roots are left as they are, nothing changes. -/
theorem Tenured.of_leaves (hk : Tenured h discarded) (hstack : h'.roots.stack = h.roots.stack)
    (hroots : ∀ name n i, (name, n, i) ∈ h'.stackRoots ↔ (name, n, i) ∈ h.stackRoots)
    (hnames : (h'.handles.map Prod.fst).Nodup) : Tenured h' discarded where
  names := hnames
  known := by
    intro name hname
    obtain ⟨n, i, hmem⟩ := hk.known name hname
    exact ⟨n, i, (hroots name n i).2 hmem⟩
  registered := by
    intro name n i hmem hname
    rw [hstack]
    exact hk.registered name n i ((hroots name n i).1 hmem) hname
  apart := fun a b n m i ha hb =>
    hk.apart a b n m i ((hroots a n i).1 ha) ((hroots b m i).1 hb)

theorem Tenured.of_same (hk : Tenured h discarded) (hs : Same h h') : Tenured h' discarded := by
  refine hk.of_leaves hs.1 (fun name n i => ?_) ?_
  · rw [mem_stackRoots, mem_stackRoots, hs.2]
  · rw [hs.2]
    exact hk.names

/-- Something else is held besides. -/
theorem Tenured.of_snapshot (hk : Tenured h discarded) {s : RootSnapshot}
    (hname : h.handles.lookup name = none) (hstack : h'.roots.stack = h.roots.stack)
    (hhandles : h'.handles = (name, .snapshot s) :: h.handles) : Tenured h' discarded := by
  refine hk.of_leaves hstack (fun a n i => ?_) ?_
  · rw [mem_stackRoots, mem_stackRoots, hhandles]
    simp
  · rw [hhandles]
    exact hk.names_cons hname

/-- A new stack root is registered. -/
theorem Tenured.of_pushed (hk : Tenured h discarded) (hp : Pushed name n h h') :
    Tenured h' discarded := by
  obtain ⟨hname, hstack, hhandles⟩ := hp
  have hmem : ∀ a m i, (a, m, i) ∈ h'.stackRoots ↔
      (a = name ∧ m = n ∧ i = h.roots.stack.size) ∨ (a, m, i) ∈ h.stackRoots := by
    intro a m i
    rw [mem_stackRoots, mem_stackRoots, hhandles]
    simp
  -- The entries of the others are below the new one.
  have hbelow : ∀ a m i, (a, m, i) ∈ h.stackRoots → a ∉ discarded → i < h.roots.stack.size := by
    intro a m i ha hd
    obtain ⟨hi, -⟩ := Array.getElem?_eq_some_iff.1 (hk.registered a m i ha hd)
    exact hi
  refine ⟨?_, ?_, ?_, ?_⟩
  · rw [hhandles]
    exact hk.names_cons hname
  · intro a ha
    obtain ⟨m, i, hold⟩ := hk.known a ha
    exact ⟨m, i, (hmem a m i).2 (.inr hold)⟩
  · intro a m i ha hd
    rw [hstack, Array.getElem?_push]
    obtain ⟨-, rfl, rfl⟩ | hold := (hmem a m i).1 ha
    · rw [if_pos rfl]
    · rw [if_neg (Nat.ne_of_lt (hbelow a m i hold hd))]
      exact hk.registered a m i hold hd
  · intro a b m k i ha hb hda hdb
    obtain ⟨rfl, -, hai⟩ | ha := (hmem a m i).1 ha <;>
      obtain ⟨rfl, -, hbi⟩ | hb := (hmem b k i).1 hb
    · rfl
    · exact absurd hai (Nat.ne_of_lt (hbelow b k i hb hdb))
    · exact absurd hbi (Nat.ne_of_lt (hbelow a m i ha hda))
    · exact hk.apart a b m k i ha hb hda hdb

/-- A registered stack root that is no leftover is retargeted and is registered still. -/
theorem Tenured.of_retargeted (hk : Tenured h discarded) (hr : Retargeted name h h')
    (hfair : ∀ n i, (name, n, i) ∈ h.stackRoots → h.roots.stack[i]? = some n →
      name ∉ discarded) : Tenured h' discarded := by
  obtain ⟨n, m, i, hx, hentry, hstack, hhandles⟩ := hr
  have hroot : (name, n, i) ∈ h.stackRoots :=
    mem_stackRoots.2 ((Heap.perm_handles hx).mem_iff.2 List.mem_cons_self)
  have hname := hfair n i hroot hentry
  obtain ⟨hunused, hnames, hrest⟩ := hk.without hx
  have hmem : ∀ a k j, (a, k, j) ∈ h'.stackRoots ↔
      (a = name ∧ k = m ∧ j = i) ∨ (a, k, j) ∈ h.stackRoots ∧ a ≠ name := by
    intro a k j
    rw [mem_stackRoots, mem_stackRoots, hhandles, List.mem_cons, hrest]
    simp
  -- The root keeps its entry under the same name, and all others are apart from it in both.
  refine ⟨?_, ?_, ?_, ?_⟩
  · rw [hhandles]
    exact List.nodup_cons.2 ⟨hunused, hnames⟩
  · intro a ha
    obtain ⟨k, j, hold⟩ := hk.known a ha
    refine ⟨k, j, (hmem a k j).2 (.inr ⟨hold, ?_⟩)⟩
    rintro rfl
    exact hname ha
  · intro a k j ha hd
    rw [hstack, Array.getElem?_setIfInBounds]
    obtain ⟨-, rfl, rfl⟩ | ⟨hold, hne⟩ := (hmem a k j).1 ha
    · obtain ⟨hi, -⟩ := Array.getElem?_eq_some_iff.1 hentry
      rw [if_pos rfl, if_pos hi]
    · have hij : i ≠ j := by
        rintro rfl
        exact hne (hk.apart a name k n i hold hroot hd hname)
      rw [if_neg hij]
      exact hk.registered a k j hold hd
  · intro a b k k' j ha hb hda hdb
    obtain ⟨rfl, -, rfl⟩ | ⟨ha, hane⟩ := (hmem a k j).1 ha <;>
      obtain ⟨rfl, -, hbj⟩ | ⟨hb, hbne⟩ := (hmem b k' _).1 hb
    · rfl
    · exact absurd (hk.apart b a k' n j hb hroot hdb hname) hbne
    · subst hbj
      exact absurd (hk.apart a b k n j ha hroot hda hname) hane
    · exact hk.apart a b k k' j ha hb hda hdb

/-- Where nothing is held under the name there is nothing to release. -/
theorem Tenured.of_unheld (hk : Tenured h discarded) (hname : h.handles.lookup name = none)
    (hs : Same h h') : Tenured h' (discarded.filter (· ≠ name)) := by
  have hall : discarded.filter (· ≠ name) = discarded := by
    refine List.filter_eq_self.2 fun a ha => decide_eq_true ?_
    rintro rfl
    obtain ⟨n, i, hroot⟩ := hk.known a ha
    simpa using List.lookup_eq_none_iff.1 hname _ (mem_stackRoots.1 hroot)
  rw [hall]
  exact hk.of_same hs

/-- A handle is held no longer, and the entries of the others are where they were. -/
theorem Tenured.of_released (hk : Tenured h discarded) {x : Handle}
    (hx : h.handles.lookup name = some x) (hhandles : h'.handles = h.without name)
    (hstack : ∀ a n i, (a, n, i) ∈ h.stackRoots → a ∉ discarded → a ≠ name →
      h'.roots.stack[i]? = h.roots.stack[i]?) :
    Tenured h' (discarded.filter (· ≠ name)) := by
  obtain ⟨-, hnames, hrest⟩ := hk.without hx
  have hmem : ∀ a k j, (a, k, j) ∈ h'.stackRoots ↔ (a, k, j) ∈ h.stackRoots ∧ a ≠ name := by
    intro a k j
    rw [mem_stackRoots, mem_stackRoots, hhandles, hrest]
  have hkept : ∀ {a}, a ∉ discarded.filter (· ≠ name) → a ≠ name → a ∉ discarded :=
    fun ha hne hd => ha (List.mem_filter.2 ⟨hd, decide_eq_true hne⟩)
  refine ⟨?_, ?_, ?_, ?_⟩
  · rw [hhandles]
    exact hnames
  · intro a ha
    obtain ⟨ha, hne⟩ := List.mem_filter.1 ha
    obtain ⟨k, j, hold⟩ := hk.known a ha
    exact ⟨k, j, (hmem a k j).2 ⟨hold, of_decide_eq_true hne⟩⟩
  · intro a k j ha hd
    obtain ⟨ha, hne⟩ := (hmem a k j).1 ha
    rw [hstack a k j ha (hkept hd hne) hne]
    exact hk.registered a k j ha (hkept hd hne)
  · intro a b k k' j ha hb hda hdb
    obtain ⟨ha, hane⟩ := (hmem a k j).1 ha
    obtain ⟨hb, hbne⟩ := (hmem b k' j).1 hb
    exact hk.apart a b k k' j ha hb (hkept hda hane) (hkept hdb hbne)

/-- Dropping a handle that is not a leftover passing for a registered stack root pops its own entry
at most. -/
theorem Tenured.of_dropped (hk : Tenured h discarded) (hd : Dropped name h h')
    (hfair : ∀ n i, (name, n, i) ∈ h.stackRoots → h.roots.stack[i]? = some n →
      name ∉ discarded) : Tenured h' (discarded.filter (· ≠ name)) := by
  obtain ⟨x, hx, hstack, hhandles⟩ := hd
  refine hk.of_released hx hhandles fun a k j ha hda hne => ?_
  rw [hstack]
  unfold stackWithout
  split
  · rename_i n i
    split
    · rename_i htop
      obtain ⟨hentry, htop⟩ := htop
      have hroot : (name, n, i) ∈ h.stackRoots :=
        mem_stackRoots.2 ((Heap.perm_handles hx).mem_iff.2 List.mem_cons_self)
      have hij : j ≠ i := by
        rintro rfl
        exact hne (hk.apart a name k n j ha hroot hda (hfair n j hroot hentry))
      obtain ⟨hj, -⟩ := Array.getElem?_eq_some_iff.1 (hk.registered a k j ha hda)
      rw [Array.getElem?_pop, if_pos (by omega)]
    · rfl
  · rfl

/-- A restore discards the entries above the depth that it cuts the root stack to. -/
theorem Tenured.of_restored (hk : Tenured h discarded) {depth : Nat}
    (hstack : h'.roots.stack = h.roots.stack.take depth) (hhandles : h'.handles = h.handles) :
    Tenured h' (discarded ++
      (h'.stackRoots.filter fun x => h'.roots.stack.size ≤ x.2.2).map Prod.fst) := by
  have hmem : ∀ a k j, (a, k, j) ∈ h'.stackRoots ↔ (a, k, j) ∈ h.stackRoots := by
    intro a k j
    rw [mem_stackRoots, mem_stackRoots, hhandles]
  have hold : ∀ {a k j}, a ∉ discarded ++
      (h'.stackRoots.filter fun x => h'.roots.stack.size ≤ x.2.2).map Prod.fst →
      (a, k, j) ∈ h'.stackRoots → a ∉ discarded ∧ j < h'.roots.stack.size := by
    intro a k j ha hroot
    rw [List.mem_append, not_or] at ha
    refine ⟨ha.1, Nat.lt_of_not_le fun hle => ha.2 ?_⟩
    exact List.mem_map.2 ⟨_, List.mem_filter.2 ⟨hroot, decide_eq_true hle⟩, rfl⟩
  refine ⟨?_, ?_, ?_, ?_⟩
  · rw [hhandles]
    exact hk.names
  · intro a ha
    obtain ha | ha := List.mem_append.1 ha
    · obtain ⟨k, j, hroot⟩ := hk.known a ha
      exact ⟨k, j, (hmem a k j).2 hroot⟩
    · obtain ⟨⟨b, k, j⟩, hb, rfl⟩ := List.mem_map.1 ha
      exact ⟨k, j, (List.mem_filter.1 hb).1⟩
  · intro a k j ha hd
    obtain ⟨hda, hj⟩ := hold hd ha
    obtain ⟨hlt, hentry⟩ := Array.getElem?_eq_some_iff.1
      (hk.registered a k j ((hmem a k j).1 ha) hda)
    rw [hstack] at hj ⊢
    rw [Array.getElem?_eq_getElem hj]
    simp [hentry]
  · intro a b k k' j ha hb hda hdb
    exact hk.apart a b k k' j ((hmem a k j).1 ha) ((hmem b k' j).1 hb) (hold hda ha).1
      (hold hdb hb).1

namespace Tenure

variable {t : Tenure} {step : Step} {steps : List Step}

/-- A leftover that passes for no registered stack root has no entry of its own. -/
theorem not_mem_discarded_of_not_passes (hpasses : t.passes name = false) {i : Nat}
    (hroot : (name, n, i) ∈ t.heap.stackRoots) (hentry : t.heap.roots.stack[i]? = some n) :
    name ∉ t.discarded := by
  intro hname
  have hany : (t.heap.stackRoots.any fun x =>
      x.1 == name && t.heap.roots.stack[x.2.2]? == some x.2.1) = true :=
    List.any_eq_true.2 ⟨_, hroot, by simp [hentry]⟩
  unfold passes at hpasses
  rw [List.contains_iff_mem.2 hname, hany] at hpasses
  cases hpasses

/-- A fair step keeps what is registered registered. -/
theorem tenured_perform (hk : Tenured t.heap t.discarded) (hfair : t.isFair run fuel step = true) :
    Tenured (t.perform run fuel step).heap (t.perform run fuel step).discarded := by
  unfold isFair at hfair
  split at hfair
  · rename_i name
    have hpasses : t.passes name = false := by simpa using hfair
    obtain ⟨hname, hsame⟩ | hdropped := (perform_drop_endsWith name).holds
    · exact hk.of_unheld hname hsame
    · exact hk.of_dropped hdropped fun n i => not_mem_discarded_of_not_passes hpasses
  · rename_i name target
    have hpasses : t.passes name = false := by simpa using hfair
    obtain hsame | hr := (perform_retarget_endsWith name target).holds
    · exact hk.of_same hsame
    · exact hk.of_retargeted hr fun n i => not_mem_discarded_of_not_passes hpasses
  · rename_i name n
    obtain hsame | hp := (perform_stackRoot_endsWith name n).holds
    · exact hk.of_same hsame
    · exact hk.of_pushed hp
  · rename_i name source
    obtain hsame | ⟨n, hp⟩ :=
      (perform_stackRootFrom_endsWith name source).holds
    · exact hk.of_same hsame
    · exact hk.of_pushed hp
  · rename_i name
    obtain ⟨hname, hsame⟩ | ⟨x, hx, hstack, hhandles⟩ := (perform_forget_endsWith name).holds
    · exact hk.of_unheld hname hsame
    · exact hk.of_released hx hhandles fun _ _ i _ _ _ => congrArg (·[i]?) hstack
  · rename_i name
    obtain hsame | ⟨hname, hstack, s, hhandles⟩ :=
      (perform_snapshot_endsWith name).holds
    · exact hk.of_same hsame
    · exact hk.of_snapshot hname hstack hhandles
  · rename_i name
    obtain ⟨⟨depth, hstack⟩, hhandles⟩ :=
      (perform_restore_endsWith name).holds
    exact hk.of_restored hstack hhandles
  · -- Any other step is fair only if it leaves everything alone.
    rename_i hdrop _ _ _ hforget _ hrestore
    simp only [leaves, Bool.and_eq_true, beq_iff_eq, decide_eq_true_eq] at hfair
    obtain ⟨⟨hstack, hroots⟩, hnames⟩ := hfair
    have hdiscarded : (t.perform run fuel step).discarded = t.discarded := by
      unfold perform advance
      dsimp only
      split <;> simp_all
    rw [hdiscarded]
    exact hk.of_leaves hstack (fun _ _ _ => by rw [hroots]) hnames

/-- Fair steps keep what is registered registered. -/
theorem tenured_performAll (hk : Tenured t.heap t.discarded)
    (hfair : t.areFair run fuel steps = true) :
    Tenured (t.performAll run fuel steps).heap (t.performAll run fuel steps).discarded := by
  induction steps generalizing t with
  | nil => exact hk
  | cons step steps ih =>
    rw [areFair, Bool.and_eq_true] at hfair
    exact ih (tenured_perform hk hfair.1) hfair.2

/-- Nothing is amiss where no stack root is held. -/
theorem kept_nil (hnames : (h.handles.map Prod.fst).Nodup) (hnone : h.stackRoots = []) :
    Tenured h [] where
  names := hnames
  known := by simp
  registered := by simp [hnone]
  apart := by simp [hnone]

/-- Dropping a stack root pops the topmost entry if it has the index and the node of the stack root,
and else leaves the root stack as it is. -/
theorem stack_perform_drop (hk : Tenured t.heap t.discarded) {i : Nat}
    (hroot : (name, n, i) ∈ t.heap.stackRoots) :
    (t.perform run fuel (.drop name)).heap.roots.stack =
      stackWithout t.heap.roots.stack (.stackRoot n i) := by
  obtain ⟨hname, -⟩ | ⟨x, hx, hstack, -⟩ := (perform_drop_endsWith name).holds
  · have hunheld := List.lookup_eq_none_iff.1 hname _ (mem_stackRoots.1 hroot)
    simp at hunheld
  · rw [hk.eq_of_lookup hx hroot] at hstack
    exact hstack

end Tenure

attribute [local irreducible] Tenure.performAll Tenure.areFair

end Mutator

end HybridHeap
