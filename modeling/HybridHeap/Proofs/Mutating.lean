import HybridHeap.Mutator.Run
import HybridHeap.Proofs.Handles

/-!
# The mutator keeps the invariant

Every operation on handles, on roots and on weak references takes a heap that satisfies the
invariant to one that does, also if it fails, unless the failure is final. A step that is refused
leaves the heap as it was.
-/

namespace HybridHeap.Mutator

open Collector Act

variable {law : Law} {w : Juncture} {h : Heap} {n : NodeId} {name : HandleName}

/-! ## Refusing -/

/-- A step that is refused leaves the heap as it was. -/
theorem refuse_spec {α : Type} {Q : α → Heap → Prop} (inv : Invariant law w h) :
    Leads refuse h Q (Failed (Invariant law w) w.torn) :=
  leads_throw.2 (.of_not_isFinal rfl inv)

/-- A step goes on under the condition that it requires. -/
theorem require_spec {p : Heap → Bool} {Q : Unit → Heap → Prop} (inv : Invariant law w h)
    (hQ : p h = true → Q () h) : Leads (require p) h Q (Failed (Invariant law w) w.torn) := by
  unfold require
  simp only [leads_bind, leads_view]
  cases hp : p h with
  | false => exact refuse_spec inv
  | true => exact hQ hp

/-- A step goes on with what is held under a name. -/
theorem handle_spec {Q : Handle → Heap → Prop} (inv : Invariant law w h)
    (hQ : ∀ x, h.handles.lookup name = some x → Q x h) :
    Leads (handle name) h Q (Failed (Invariant law w) w.torn) := by
  unfold handle
  simp only [leads_bind, leads_view]
  cases hx : h.handles.lookup name with
  | none => exact refuse_spec inv
  | some x => exact hQ x hx

@[simp] theorem leads_keep {x : Handle} {Q : Unit → Heap → Prop} {E : Failure → Heap → Prop} :
    Leads (keep name x) h Q E ↔ Q () { h with handles := (name, x) :: h.handles } := Iff.rfl

@[simp] theorem leads_release {Q : Unit → Heap → Prop} {E : Failure → Heap → Prop} :
    Leads (release name) h Q E ↔ Q () { h with handles := h.without name } := Iff.rfl

/-- Keeping what is in hand and no guard under a name. -/
theorem invariant_keep {x : Handle} (inv : Invariant law (w.taking x) h) (hx : x.guards = 0)
    (name : HandleName) : Invariant law w { h with handles := (name, x) :: h.handles } := by
  have hkeep := inv.keep name
  rw [hx] at hkeep
  exact hkeep

/-- Releasing a name under which no guard is held. -/
theorem invariant_release {x : Handle} (inv : Invariant law w h)
    (hx : h.handles.lookup name = some x) (hguards : x.guards = 0) :
    Invariant law (w.taking x) { h with handles := h.without name } := by
  have hrelease := inv.release hx
  rw [hguards] at hrelease
  exact hrelease

/-! ## Taking -/

/-- A new explicit root is in hand until it is kept. -/
theorem newRoot_spec (inv : Invariant law w h) (hn : h.Referable w n) :
    Returns (newRoot n) h fun slot h' =>
      Invariant law { w with rooted := (n, slot) :: w.rooted } h' := by
  unfold newRoot
  simp only [Returns, leads_bind, leads_view, leads_update, leads_pure]
  exact (increment_spec inv hn.allocated hn.spared).leads fun _ _ hpost => hpost.1.insertRoot

/-- Dropping an explicit root that is in hand. -/
theorem dropRoot_spec {slot : Nat}
    (inv : Invariant law { w with rooted := (n, slot) :: w.rooted } h) :
    Returns (dropRoot n slot) h fun _ => Invariant law w := by
  unfold dropRoot
  simp only [Returns, leads_bind, leads_update]
  exact (decrement_spec inv.eraseRoot).leads fun _ _ hpost => hpost.1

/-- Taking a reference of some sort leaves it in hand. -/
def Takes (law : Law) (w : Juncture) (h : Heap) (take : Act Handle) : Prop :=
  Leads take h (fun x h' => Invariant law (w.taking x) h' ∧ x.guards = 0)
    (Failed (Invariant law w) w.torn)

/-- Taking an edge. -/
theorem takes_takeEdge (inv : Invariant law w h) (hn : h.Referable w n) :
    Takes law w h (takeEdge n) := by
  unfold Takes takeEdge
  simp only [leads_bind, leads_pure]
  exact (increment_spec inv hn.allocated hn.spared).leads fun _ _ hpost => ⟨hpost.1, rfl⟩

/-- Taking an edge whose payload type is erased. -/
theorem takes_takeErased (inv : Invariant law w h) (hn : h.Referable w n) :
    Takes law w h (takeErased n) := by
  unfold Takes takeErased
  simp only [leads_bind, leads_pure]
  exact (increment_spec inv hn.allocated hn.spared).leads fun _ _ hpost => ⟨hpost.1, rfl⟩

/-- Taking an explicit root. -/
theorem takes_takeRoot (inv : Invariant law w h) (hn : h.Referable w n) :
    Takes law w h (takeRoot n) := by
  unfold Takes takeRoot
  simp only [leads_bind, leads_pure]
  exact (newRoot_spec inv hn).leads fun _ h' inv' => ⟨inv', rfl⟩

/-- A new stack root. -/
theorem newStackRoot_spec (inv : Invariant law w h) (hn : h.Stackable w n) :
    Returns (newStackRoot n) h fun _ => Invariant law w := by
  unfold newStackRoot
  simp only [Returns, leads_bind, leads_view, leads_update, leads_pure]
  refine inv.restack (fun m hm => ?_) (fun m hm => .inl hm) fun m hm => .inl hm
  obtain hm | rfl := Array.mem_push.1 hm
  · exact .inl hm
  · exact .inr hn

/-- Taking a stack root. -/
theorem takes_takeStackRoot (inv : Invariant law w h) (hn : h.Stackable w n) :
    Takes law w h (takeStackRoot n) := by
  unfold Takes takeStackRoot
  simp only [leads_bind, leads_pure]
  exact (newStackRoot_spec inv hn).leads fun _ h' inv' => ⟨inv', rfl⟩

/-- A reference that can be taken can be kept under a name. -/
theorem refer_spec {take : Act Handle} (inv : Invariant law w h) (htake : Takes law w h take) :
    Leads (refer name n take) h (fun _ => Invariant law w) (Failed (Invariant law w) w.torn) := by
  unfold refer
  simp only [leads_bind, leads_keep, leads_pure]
  refine require_spec inv fun _ => ?_
  exact Leads.imp htake fun x h' hpost => invariant_keep hpost.1 hpost.2 name

/-- A reference to a node may be taken after it has been checked that it can be. -/
theorem referTo_spec {take : NodeId → Act Handle} (hready : w.Ready) (inv : Invariant law w h)
    (htake : h.Referable w n → Takes law w h (take n)) :
    Leads (referTo name n take) h (fun _ => Invariant law w) (Failed (Invariant law w) w.torn) := by
  unfold referTo
  rw [leads_bind]
  exact require_spec inv fun hn => refer_spec inv (htake (inv.referable hready hn))

/-- A step that no destructor may be running for. -/
theorem requireNoDestructor_spec {Q : Unit → Heap → Prop} (hready : w.Ready)
    (inv : Invariant law w h)
    (hQ : (∀ pins doomed, w.guard ≠ some (.lite pins doomed)) → h.dying.isEmpty = true → Q () h) :
    Leads requireNoDestructor h Q (Failed (Invariant law w) w.torn) :=
  require_spec inv fun hd => hQ (inv.guard_ne_lite hready hd) hd

/-- A node that can be put on a stack of roots after it has been checked. -/
theorem requireStackable_spec {Q : Unit → Heap → Prop} (hready : w.Ready)
    (inv : Invariant law w h) (hQ : h.Stackable w n → Q () h) :
    Leads (requireStackable n) h Q (Failed (Invariant law w) w.torn) := by
  unfold requireStackable
  rw [leads_bind]
  refine requireNoDestructor_spec hready inv fun hlite _ => ?_
  exact require_spec inv fun hn => hQ ⟨(inv.referable hready hn).allocated, hlite⟩

/-- A stack root that may be used designates its node. -/
theorem requireRegistered_spec {index : Nat} {Q : Unit → Heap → Prop} (inv : Invariant law w h)
    (hQ : h.Referable w n → Q () h) :
    Leads (requireRegistered n index) h Q (Failed (Invariant law w) w.torn) := by
  unfold requireRegistered
  simp only [leads_bind, leads_view]
  split
  · simp only [leads_bind, leads_view]
    exact leads_fatal_failed rfl fun _ => { inv with }
  · rename_i hn
    rw [not_not] at hn
    refine hQ (inv.referable_of_mem_uncounted (List.mem_append_left _ ?_))
    unfold Heap.stackedRoots
    have hmem : n ∈ h.roots.stack := Array.mem_of_getElem? hn
    simp [hmem]

/-! ## Handles -/

/-- Taking an edge to the node that a root designates. -/
theorem edgeFrom_spec {source : HandleName} (inv : Invariant law w h) :
    Leads (edgeFrom name source) h (fun _ => Invariant law w)
      (Failed (Invariant law w) w.torn) := by
  unfold edgeFrom
  simp only [leads_bind]
  refine require_spec inv fun _ => handle_spec inv fun x hx => ?_
  split
  case h_1 m slot =>
    have hroot := inv.tokens m slot (List.mem_append_right _ (List.mem_filterMap.2
      ⟨_, (Heap.perm_handles hx).mem_iff.2 List.mem_cons_self, rfl⟩))
    exact refer_spec inv
      (takes_takeEdge inv (inv.referable_of_debts_pos (Heap.debts_pos_of_root hroot w)))
  case h_2 m index =>
    rw [leads_bind]
    exact requireRegistered_spec inv fun hm => refer_spec inv (takes_takeEdge inv hm)
  case h_3 => exact refuse_spec inv

/-- Taking a reference to the target of an edge. -/
theorem referToTarget_spec {source : HandleName} {take : NodeId → Act Handle}
    (inv : Invariant law w h) (htake : ∀ m, h.Referable w m → Takes law w h (take m)) :
    Leads (referToTarget name source take) h (fun _ => Invariant law w)
      (Failed (Invariant law w) w.torn) := by
  unfold referToTarget
  simp only [leads_bind]
  refine handle_spec inv fun x hx => ?_
  split
  case h_1 m =>
    exact refer_spec inv (htake m (inv.referable_of_debts_pos
      (Heap.debts_pos_of_handle hx List.mem_cons_self w)))
  case h_2 => exact refuse_spec inv

/-- Copying an edge or an explicit root. -/
theorem copy_spec {source : HandleName} (inv : Invariant law w h) :
    Leads (copy name source) h (fun _ => Invariant law w) (Failed (Invariant law w) w.torn) := by
  unfold copy
  simp only [leads_bind]
  refine handle_spec inv fun x hx => ?_
  split
  case h_1 m =>
    exact refer_spec inv (takes_takeEdge inv (inv.referable_of_debts_pos
      (Heap.debts_pos_of_handle hx List.mem_cons_self w)))
  case h_2 m =>
    exact refer_spec inv (takes_takeErased inv (inv.referable_of_debts_pos
      (Heap.debts_pos_of_handle hx List.mem_cons_self w)))
  case h_3 m slot =>
    have hroot := inv.tokens m slot (List.mem_append_right _ (List.mem_filterMap.2
      ⟨_, (Heap.perm_handles hx).mem_iff.2 List.mem_cons_self, rfl⟩))
    exact refer_spec inv
      (takes_takeRoot inv (inv.referable_of_debts_pos (Heap.debts_pos_of_root hroot w)))
  case h_4 => exact refuse_spec inv

/-- Erasing the payload type of an edge leaves the edge. -/
theorem eraseKind_spec (inv : Invariant law w h) :
    Leads (eraseKind name) h (fun _ => Invariant law w) (Failed (Invariant law w) w.torn) := by
  unfold eraseKind
  simp only [leads_bind]
  refine handle_spec inv fun x hx => ?_
  split
  case h_1 m =>
    simp only [leads_bind, leads_release, leads_keep, leads_pure]
    have hrelease := invariant_release inv hx rfl
    exact invariant_keep (x := .erased m) hrelease rfl name
  case h_2 => exact refuse_spec inv

/-- Taking an edge to the target of an erased edge, if the kind is right. -/
theorem downcast_spec {source : HandleName} {kind : Kind} (inv : Invariant law w h) :
    Leads (downcast name source kind) h (fun _ => Invariant law w)
      (Failed (Invariant law w) w.torn) := by
  unfold downcast
  simp only [leads_bind]
  refine require_spec inv fun _ => handle_spec inv fun x hx => ?_
  split
  case h_1 m =>
    simp only [leads_bind, leads_view]
    split
    · rw [leads_map]
      exact refer_spec inv (takes_takeEdge inv (inv.referable_of_debts_pos
        (Heap.debts_pos_of_handle hx List.mem_cons_self w)))
    · exact inv
  case h_2 => exact refuse_spec inv

/-- What is left after popping was there before. -/
theorem mem_of_mem_pop {stack : Array NodeId} (hn : n ∈ stack.pop) : n ∈ stack := by
  rw [← Array.mem_toList_iff, Array.toList_pop] at hn
  exact Array.mem_toList_iff.1 ((List.dropLast_sublist _).subset hn)

/-- What is left after cutting was there before. -/
theorem mem_of_mem_take {stack : Array NodeId} {size : Nat} (hn : n ∈ stack.take size) :
    n ∈ stack := by
  rw [← Array.mem_toList_iff, Array.take_eq_extract, Array.toList_extract] at hn
  exact Array.mem_toList_iff.1 (List.mem_of_mem_drop (List.mem_of_mem_take hn))

/-- Dropping a stack root. -/
theorem dropStackRoot_spec {index : Nat} (inv : Invariant law w h) :
    Leads (dropStackRoot n index) h (fun _ => Invariant law w)
      (Failed (Invariant law w) w.torn) := by
  unfold dropStackRoot
  simp only [leads_bind, leads_view]
  split
  · split
    · simp only [leads_bind]
      exact leads_fatal_failed rfl fun _ => { inv with }
    · simp only [leads_update]
      exact inv.restack (fun m hm => .inl (mem_of_mem_pop hm)) (fun m hm => .inl hm)
        fun m hm => .inl hm
  · exact inv

/-- Dropping a weak reference. -/
theorem dropWeak_spec {slot : Nat}
    (inv : Invariant law { w with referring := slot :: w.referring } h) :
    Returns (dropWeak slot) h fun _ => Invariant law w := by
  unfold dropWeak
  simp only [Returns, leads_bind, leads_view, leads_update]
  exact (releaseAll_spec inv.eraseWeak).leads fun _ _ hpost => hpost.1

/-- Dropping what was held under a name. -/
theorem dropHandle_spec {x : Handle} (inv : Invariant law (w.taking x) h) :
    x.guards = 0 →
    Leads (dropHandle x) h (fun _ => Invariant law w) (Failed (Invariant law w) w.torn) := by
  intro hx
  cases x with
  | edge m => exact (decrement_spec inv).leads fun _ _ hpost => hpost.1
  | erased m => exact (decrement_spec inv).leads fun _ _ hpost => hpost.1
  | root m slot => exact (dropRoot_spec inv).leads fun _ h' inv' => inv'
  | stackRoot m index => exact dropStackRoot_spec inv
  | weak slot => exact (dropWeak_spec inv).leads fun _ h' inv' => inv'
  | inhibitor => cases hx
  | snapshot s => exact inv
  | source s identifier => exact inv

/-- Dropping a handle. -/
theorem dropNamed_spec (inv : Invariant law w h) :
    Leads (dropNamed name) h (fun _ => Invariant law w) (Failed (Invariant law w) w.torn) := by
  unfold dropNamed
  simp only [leads_bind]
  refine handle_spec inv fun x hx => ?_
  rw [leads_release]
  by_cases hguard : x = .inhibitor
  · subst hguard
    exact inv.release hx
  · have hguards : x.guards = 0 := by
      cases x <;> first | rfl | exact absurd rfl hguard
    exact dropHandle_spec (invariant_release inv hx hguards) hguards

/-- Forgetting a handle. -/
theorem forget_spec (inv : Invariant law w h) :
    Leads (forget name) h (fun _ => Invariant law w) (Failed (Invariant law w) w.torn) := by
  unfold forget
  simp only [leads_bind]
  exact handle_spec inv fun x hx => inv.forget hx

/-- Pointing a stack root somewhere else. -/
theorem retarget_spec {target : HandleName} (hready : w.Ready) (inv : Invariant law w h) :
    Leads (retarget name target) h (fun _ => Invariant law w)
      (Failed (Invariant law w) w.torn) := by
  unfold retarget
  simp only [leads_bind]
  refine requireNoDestructor_spec hready inv fun hlite _ => ?_
  refine handle_spec inv fun x hx => handle_spec inv fun y hy => ?_
  split
  case h_1 n index m =>
    have hm := inv.referable_of_debts_pos (Heap.debts_pos_of_handle hy List.mem_cons_self w)
    simp only [leads_bind, leads_view]
    split
    · exact refuse_spec inv
    · simp only [leads_bind]
      refine requireRegistered_spec inv fun _ => ?_
      simp only [leads_update, leads_release, leads_keep]
      have hset : Invariant law w (h.modifyRoots fun r =>
          { r with stack := r.stack.setIfInBounds index m }) := by
        refine inv.restack (fun k hk => ?_) (fun m hm => .inl hm) fun m hm => .inl hm
        obtain hk | rfl := Array.mem_or_eq_of_mem_setIfInBounds hk
        · exact .inl hk
        · exact .inr ⟨hm.allocated, hlite⟩
      have hrelease := invariant_release hset hx rfl
      exact invariant_keep (x := .stackRoot m index) hrelease rfl name
  case h_2 => exact refuse_spec inv

/-! ## Stacks of roots -/

/-- Changing the protect stack. -/
theorem modifyProtect_spec {f : Array NodeId → Array NodeId} (inv : Invariant law w h)
    (hf : ∀ m ∈ f h.roots.protect, m ∈ h.roots.protect ∨ h.Stackable w m) :
    Returns (modifyProtect f) h fun _ => Invariant law w :=
  inv.restack (fun _ hm => .inl hm) hf fun _ hm => .inl hm

/-- Changing the node stack. -/
theorem modifyNodeStack_spec {f : Array NodeId → Array NodeId} (inv : Invariant law w h)
    (hf : ∀ m ∈ f h.roots.nodeStack, m ∈ h.roots.nodeStack ∨ h.Stackable w m) :
    Returns (modifyNodeStack f) h fun _ => Invariant law w :=
  inv.restack (fun _ hm => .inl hm) (fun _ hm => .inl hm) hf

theorem protect_spec (hready : w.Ready) (inv : Invariant law w h) :
    Leads (protect n) h (fun _ => Invariant law w) (Failed (Invariant law w) w.torn) := by
  unfold protect
  simp only [leads_bind, leads_view, leads_pure]
  refine requireStackable_spec hready inv fun hn => (modifyProtect_spec inv fun m hm => ?_).leads
    fun _ _ inv' => inv'
  obtain hm | rfl := Array.mem_push.1 hm
  · exact .inl hm
  · exact .inr hn

theorem unprotect_spec {count : Nat} (inv : Invariant law w h) :
    Leads (unprotect count) h (fun _ => Invariant law w) (Failed (Invariant law w) w.torn) := by
  unfold unprotect
  simp only [leads_bind, leads_view]
  split
  · simp only [leads_bind]
    exact leads_fatal_failed rfl fun _ => { inv with }
  · exact (modifyProtect_spec inv fun m hm => .inl (mem_of_mem_take hm)).leads fun _ _ inv' => inv'

theorem reprotect_spec {place : Nat} (hready : w.Ready) (inv : Invariant law w h) :
    Leads (reprotect n place) h (fun _ => Invariant law w) (Failed (Invariant law w) w.torn) := by
  unfold reprotect
  simp only [leads_bind, leads_view]
  refine requireStackable_spec hready inv fun hn => ?_
  split
  · simp only [leads_bind]
    exact leads_fatal_failed rfl fun _ => { inv with }
  · refine (modifyProtect_spec inv fun m hm => ?_).leads fun _ _ inv' => inv'
    obtain hm | rfl := Array.mem_or_eq_of_mem_setIfInBounds hm
    · exact .inl hm
    · exact .inr hn

theorem restoreProtect_spec {size : Nat} (inv : Invariant law w h) :
    Leads (restoreProtect size) h (fun _ => Invariant law w) (Failed (Invariant law w) w.torn) := by
  unfold restoreProtect
  simp only [leads_bind, leads_view]
  split
  · simp only [leads_bind]
    exact leads_fatal_failed rfl fun _ => { inv with }
  · exact (modifyProtect_spec inv fun m hm => .inl (mem_of_mem_take hm)).leads fun _ _ inv' => inv'

theorem push_spec (hready : w.Ready) (inv : Invariant law w h) :
    Leads (push n) h (fun _ => Invariant law w) (Failed (Invariant law w) w.torn) := by
  unfold push
  rw [leads_bind]
  refine requireStackable_spec hready inv fun hn => (modifyNodeStack_spec inv fun m hm => ?_).leads
    fun _ _ inv' => inv'
  obtain hm | rfl := Array.mem_push.1 hm
  · exact .inl hm
  · exact .inr hn

theorem pop_spec (inv : Invariant law w h) :
    Returns pop h fun _ => Invariant law w := by
  unfold pop
  simp only [Returns, leads_bind, leads_view, leads_pure]
  exact (modifyNodeStack_spec inv fun m hm => .inl (mem_of_mem_pop hm)).leads fun _ _ inv' => inv'

theorem restoreStack_spec {size : Nat} (inv : Invariant law w h) :
    Leads (restoreStack size) h (fun _ => Invariant law w) (Failed (Invariant law w) w.torn) := by
  unfold restoreStack
  simp only [leads_bind, leads_view]
  split
  · simp only [leads_bind]
    exact leads_fatal_failed rfl fun _ => { inv with }
  · exact (modifyNodeStack_spec inv fun m hm => .inl (mem_of_mem_take hm)).leads
      fun _ _ inv' => inv'

theorem takeSnapshot_spec (inv : Invariant law w h) :
    Leads (takeSnapshot name) h (fun _ => Invariant law w) (Failed (Invariant law w) w.torn) := by
  unfold takeSnapshot
  simp only [leads_bind, leads_view, leads_keep, leads_pure]
  exact require_spec inv fun _ => invariant_keep (x := .snapshot h.roots.snapshot) inv rfl name

theorem restore_spec (inv : Invariant law w h) :
    Leads (restore name) h (fun _ => Invariant law w) (Failed (Invariant law w) w.torn) := by
  unfold restore restoreTo
  simp only [leads_bind]
  refine handle_spec inv fun x _ => ?_
  split
  · simp only [leads_bind, leads_view]
    split
    · simp only [leads_bind]
      exact leads_fatal_failed rfl fun _ => { inv with }
    · exact inv.restack (fun _ hm => .inl (mem_of_mem_take hm))
        (fun _ hm => .inl (mem_of_mem_take hm)) fun _ hm => .inl (mem_of_mem_take hm)
  · exact refuse_spec inv

/-! ## Root sources -/

/-- What registered root sources designate. -/
theorem mem_sourced : n ∈ h.sourced ↔
    ∃ s source, some s ∈ h.roots.external ∧ h.sources[s]? = some source ∧ n ∈ source.nodes := by
  unfold Heap.sourced
  simp only [List.mem_flatMap, List.mem_filterMap, Array.mem_toList_iff, id]
  constructor
  · rintro ⟨s, ⟨_, hs, rfl⟩, hn⟩
    cases hsource : h.sources[s]? with
    | none =>
      rw [hsource] at hn
      cases hn
    | some source =>
      rw [hsource] at hn
      exact ⟨s, source, hs, hsource, hn⟩
  · rintro ⟨s, source, hs, hsource, hn⟩
    refine ⟨s, ⟨_, hs, rfl⟩, ?_⟩
    rw [hsource]
    exact hn

/-- Root sources may change under the law if those registered pin, and what they designate then was
designated before or can be put on a stack of roots. -/
theorem invariant_resource (external : Array (Option SourceId)) (sources : Array RootSource)
    (inv : Invariant law w h)
    (hpins : law.pinning = true → ∀ s, some s ∈ external →
      ∃ source, sources[s]? = some source ∧ source.pins = true)
    (hnodes : law.pinning = true → ∀ s source, some s ∈ external → sources[s]? = some source →
      ∀ n ∈ source.nodes, n ∈ h.sourced ∨ h.Stackable w n) :
    Invariant law w { h with roots := { h.roots with external }, sources } := by
  refine inv.redesignate (r := { h.roots with external }) rfl hpins fun n hn => ?_
  obtain hn | hn := List.mem_append.1 hn
  · exact .inl (List.mem_append_left _ hn)
  · cases hlaw : law.pinning with
    | false =>
      rw [hlaw] at hn
      cases hn
    | true =>
      rw [hlaw, if_pos rfl] at hn
      obtain ⟨s, source, hs, hsource, hn⟩ := mem_sourced.1 hn
      refine (hnodes hlaw s source hs hsource n hn).imp (fun hn => ?_)
        fun hst => ⟨hst.allocated, hst.unpinned⟩
      refine List.mem_append_right _ ?_
      rwa [hlaw, if_pos rfl]

/-- Registering a new root source that keeps the law. -/
theorem newSource_spec {nodes : List NodeId} {pins : Bool} (inv : Invariant law w h)
    (hlaw : law.pinning = true → pins = true ∧ ∀ n ∈ nodes, h.Stackable w n) :
    Leads (newSource name nodes pins) h (fun _ => Invariant law w)
      (Failed (Invariant law w) w.torn) := by
  unfold newSource registerSource
  simp only [leads_bind, leads_view, leads_update, leads_keep, leads_pure]
  refine require_spec inv fun _ => ?_
  -- Whatever the identifier, nothing else is registered than before.
  generalize hid : (h.roots.external.findIdx? Option.isNone).getD h.roots.external.size = identifier
  obtain ⟨external, hexternal⟩ : ∃ external, external = if identifier < h.roots.external.size then
      h.roots.external.setIfInBounds identifier (some h.sources.size)
      else h.roots.external.push (some h.sources.size) := ⟨_, rfl⟩
  have hmem : ∀ s, some s ∈ external → some s ∈ h.roots.external ∨ s = h.sources.size := by
    intro s hs
    rw [hexternal] at hs
    split_ifs at hs
    · exact (Array.mem_or_eq_of_mem_setIfInBounds hs).imp_right Option.some.inj
    · exact (Array.mem_push.1 hs).imp_right Option.some.inj
  have hsource : ∀ s, (h.sources.push { nodes, pins })[s]? =
      if s = h.sources.size then some { nodes, pins } else h.sources[s]? := fun _ =>
    Array.getElem?_push
  have hregistered : law.pinning = true → ∀ s, some s ∈ h.roots.external → s ≠ h.sources.size := by
    rintro hpinning s hs rfl
    obtain ⟨source, hsource, -⟩ := inv.pins hpinning _ hs
    simp at hsource
  have hinv : Invariant law w { h with
      roots := { h.roots with external }, sources := h.sources.push { nodes, pins } } := by
    refine invariant_resource external _ inv (fun hpinning s hs => ?_)
      fun hpinning s source hs hsource' n hn => ?_
    · rw [hsource]
      obtain hs | rfl := hmem s hs
      · rw [if_neg (hregistered hpinning s hs)]
        exact inv.pins hpinning s hs
      · rw [if_pos rfl]
        exact ⟨_, rfl, (hlaw hpinning).1⟩
    · rw [hsource] at hsource'
      obtain hs | rfl := hmem s hs
      · rw [if_neg (hregistered hpinning s hs)] at hsource'
        exact .inl (mem_sourced.2 ⟨s, source, hs, hsource', hn⟩)
      · rw [if_pos rfl] at hsource'
        cases hsource'
        exact .inr ((hlaw hpinning).2 n hn)
  rw [hexternal] at hinv
  exact invariant_keep (x := .source h.sources.size identifier) hinv rfl name

/-- Changing what a root source designates, in keeping with the law. -/
theorem designate_spec {nodes : List NodeId} (inv : Invariant law w h)
    (hlaw : law.pinning = true → ∀ n ∈ nodes, h.Stackable w n) :
    Leads (designate name nodes) h (fun _ => Invariant law w)
      (Failed (Invariant law w) w.torn) := by
  unfold designate
  simp only [leads_bind]
  refine handle_spec inv fun x _ => ?_
  split
  case h_1 s _ _ =>
    have hsource : ∀ (t : SourceId) (source : RootSource),
        (h.sources.modify s fun source => { source with nodes })[t]? = some source →
        ∃ old : RootSource, h.sources[t]? = some old ∧ source.pins = old.pins ∧
          (source.nodes = nodes ∨ source.nodes = old.nodes) := by
      intro t source ht
      rw [Array.getElem?_modify] at ht
      split_ifs at ht
      · obtain ⟨old, hold, rfl⟩ := Option.map_eq_some_iff.1 ht
        exact ⟨old, hold, rfl, .inl rfl⟩
      · exact ⟨source, ht, rfl, .inr rfl⟩
    refine invariant_resource h.roots.external _ inv (fun hpinning t ht => ?_)
      fun hpinning t source ht hsource' n hn => ?_
    · obtain ⟨old, hold, hpins⟩ := inv.pins hpinning t ht
      rw [Array.getElem?_modify, hold]
      split_ifs
      · exact ⟨_, rfl, hpins⟩
      · exact ⟨_, rfl, hpins⟩
    · obtain ⟨old, hold, -, hnodes | hnodes⟩ := hsource t source hsource'
      · exact .inr (hlaw hpinning n (hnodes ▸ hn))
      · exact .inl (mem_sourced.2 ⟨t, old, ht, hold, hnodes ▸ hn⟩)
  case h_2 => exact refuse_spec inv

/-- Unregistering a root source by its identifier. -/
theorem unregisterSource_spec {identifier : Nat} (inv : Invariant law w h) :
    Returns (unregisterSource identifier) h fun _ => Invariant law w := by
  unfold unregisterSource
  simp only [Returns, leads_bind, leads_view, leads_update, leads_pure]
  have hsub : ∀ s, some s ∈ h.roots.external.setIfInBounds identifier none →
      some s ∈ h.roots.external := fun s hs =>
    (Array.mem_or_eq_of_mem_setIfInBounds hs).resolve_right (by simp)
  exact invariant_resource _ h.sources inv
    (fun hpinning s hs => inv.pins hpinning s (hsub s hs))
    fun hpinning s source hs hsource n hn =>
      .inl (mem_sourced.2 ⟨s, source, hsub s hs, hsource, hn⟩)

/-- Unregistering a root source. -/
theorem unregister_spec (inv : Invariant law w h) :
    Leads (unregister name) h (fun _ => Invariant law w) (Failed (Invariant law w) w.torn) := by
  unfold unregister
  simp only [leads_bind]
  refine handle_spec inv fun x _ => ?_
  split
  case h_1 identifier _ =>
    rw [leads_map]
    exact (unregisterSource_spec inv).leads fun _ _ hinv => hinv
  case h_2 => exact refuse_spec inv

/-! ## Weak references -/

/-- Going through a few nodes and refusing those that cannot be referred to. -/
theorem forM_requireReferable_spec {ns : List NodeId} {Q : PUnit → Heap → Prop} (hready : w.Ready)
    (inv : Invariant law w h) (hQ : (∀ n ∈ ns, h.Referable w n) → Q ⟨⟩ h) :
    Leads (ns.forM requireReferable) h Q (Failed (Invariant law w) w.torn) := by
  induction ns with
  | nil => exact hQ fun n hn => absurd hn List.not_mem_nil
  | cons n ns ih =>
    rw [leads_forM_cons]
    refine require_spec inv fun hn => ih fun hns => hQ fun m hm => ?_
    obtain rfl | hm := List.mem_cons.1 hm
    · exact inv.referable hready hn
    · exact hns m hm

/-- A weak entry takes its value out of flight, and its weak reference is in hand. -/
theorem insertWeak_spec {key : NodeId} {value : Option NodeId}
    {finalizer : Option (HandleName × Program)} (hready : w.Ready)
    (inv : Invariant law (w.holding value.toList) h) (hkey : h.Referable w key) :
    Returns (insertWeak key value finalizer) h fun slot h' =>
      Invariant law { w with referring := slot :: w.referring } h' := by
  unfold insertWeak
  simp only [Returns, leads_bind, leads_view, leads_update, leads_pure]
  refine (inv.setWeakKey hkey.allocated).insertWeak hready ⟨rfl, rfl, rfl, rfl, fun i hi => ?_⟩
    ⟨?_, hkey.spared⟩ ?_
  · cases finalizer with
    | none => cases hi
    | some f => exact (Option.some.inj hi).symm
  · rw [Heap.isAllocated_setStatus]
    exact hkey.allocated
  · rw [Heap.status_setStatus (Heap.lt_size_of_isAllocated hkey.allocated), if_pos rfl]
    simp

/-- Making a weak reference. -/
theorem newWeak_spec {key : NodeId} {value : Option NodeId} {finalizer : Option Program}
    (hready : w.Ready) (inv : Invariant law w h) :
    Leads (newWeak name key value finalizer) h (fun _ => Invariant law w)
      (Failed (Invariant law w) w.torn) := by
  unfold newWeak
  simp only [leads_bind, leads_keep]
  refine require_spec inv fun _ => require_spec inv fun hkey => ?_
  refine forM_requireReferable_spec hready inv fun hvalue => ?_
  have hkey := inv.referable hready hkey
  refine (forM_increment_spec inv (fun n hn => (hvalue n hn).allocated)
    fun n hn => (hvalue n hn).spared).leads ?_
  rintro _ h₁ ⟨inv₁, hr₁⟩
  have hkey₁ : h₁.Referable w key := ⟨by rw [hr₁.isAllocated]; exact hkey.allocated, hkey.spared⟩
  have hflight := inv₁.holding_perm (List.reverse_perm _)
  exact (insertWeak_spec hready hflight hkey₁).leads fun slot h₂ inv₂ =>
    invariant_keep (x := .weak slot) inv₂ rfl name

theorem weakSlot_spec {Q : Nat → Heap → Prop} (inv : Invariant law w h) (hQ : ∀ slot, Q slot h) :
    Leads (weakSlot name) h Q (Failed (Invariant law w) w.torn) := by
  unfold weakSlot
  simp only [leads_bind]
  refine handle_spec inv fun x _ => ?_
  split
  · exact hQ _
  · exact refuse_spec inv

/-- The key of a weak reference can be referred to. -/
theorem referable_of_weakKey? {slot : Nat} (inv : Invariant law w h)
    (hn : weakKey? slot h = some n) : h.Referable w n := by
  unfold weakKey? at hn
  obtain ⟨e, hslot, hkey⟩ := Option.bind_eq_some_iff.1 hn
  have he : e ∈ h.roots.weak.toList := SlotTable.mem_toList.2 ⟨slot, hslot⟩
  exact ⟨(inv.weakKeys e he n hkey).1, fun hd => (inv.doomed n hd).unkeyed e he hkey⟩

/-- The value of a weak reference can be referred to. -/
theorem referable_of_weakValue? {slot : Nat} (inv : Invariant law w h)
    (hn : weakValue? slot h = some n) : h.Referable w n := by
  unfold weakValue? at hn
  obtain ⟨e, hslot, hvalue⟩ := Option.bind_eq_some_iff.1 hn
  have he : e ∈ h.roots.weak.toList := SlotTable.mem_toList.2 ⟨slot, hslot⟩
  have hpos := Heap.weakHolders_pos he hvalue
  refine inv.referable_of_debts_pos ?_
  unfold Heap.debts Heap.holders
  omega

/-- Taking an edge to what a weak reference has. -/
theorem weakEdge_spec {part : Nat → Heap → Option NodeId} {kind : Kind}
    {keepName : Option HandleName} (inv : Invariant law w h)
    (hpart : ∀ slot n, part slot h = some n → h.Referable w n) :
    Leads (weakEdge part name kind keepName) h (fun _ => Invariant law w)
      (Failed (Invariant law w) w.torn) := by
  unfold weakEdge
  simp only [leads_bind]
  refine weakSlot_spec inv fun slot => ?_
  have hunused : ∀ {Q : PUnit → Heap → Prop}, Q ⟨⟩ h →
      Leads (keepName.toList.forM requireUnused) h Q (Failed (Invariant law w) w.torn) := by
    intro Q hQ
    cases keepName with
    | none => exact hQ
    | some other =>
      show Leads (requireUnused other >>= fun _ => (pure ⟨⟩ : Act PUnit)) h _ _
      rw [leads_bind]
      exact require_spec inv fun _ => hQ
  refine hunused ?_
  simp only [leads_view]
  split
  · exact inv
  · rename_i n hn
    have hn := hpart slot n (Option.filter_eq_some_iff.1 hn).1
    simp only [leads_bind]
    refine (increment_spec inv hn.allocated hn.spared).leads ?_
    rintro _ h₁ ⟨inv₁, _⟩
    cases keepName with
    | some other =>
      simp only [leads_bind, leads_keep, leads_pure]
      exact invariant_keep (x := .edge n) inv₁ rfl other
    | none =>
      simp only [leads_bind, leads_pure]
      exact (decrement_spec inv₁).leads fun _ _ hpost => hpost.1

end HybridHeap.Mutator
