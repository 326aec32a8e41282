import HybridHeap.Proofs.Sparing
import HybridHeap.Proofs.Running

/-!
# Two heaps with one mutator

What a mutator can tell of two heaps that were collected differently. They have the same roots and
handles and agree on the nodes that the mutator may still name, which are attached in both, while
garbage, counts and queues may differ. A step that names only such nodes does the same to both:
where it returns in the one it does so in the other, unless a count there goes below zero, and the
invariant rules that out. `Act.Tracks` is the logic in which this is shown, with one rule for each
way of building an operation.
-/

namespace HybridHeap

open Collector Act

variable {α β : Type} {E : Failure → Prop} {T : Set NodeId} {s : Nat} {r h r' h' : Heap}
  {n : NodeId} {law : Law} {w : Juncture}

/-! ## One operation on two heaps -/

namespace Act

/-- If the operation returns from `r`, it returns the same from `h` with `Q`, or fails there with
`E`. -/
def Tracks (E : Failure → Prop) (x : Act α) (r h : Heap) (Q : α → Heap → Heap → Prop) : Prop :=
  ∀ a r', x r = .ok a r' → Leads x h (fun b h' => b = a ∧ Q a r' h') fun e _ => E e

namespace Tracks

variable {x : Act α} {f : α → Act β} {c : Act Unit} {Q Q' : α → Heap → Heap → Prop}
  {S : β → Heap → Heap → Prop}

/-- What is known of the results may be weakened. -/
theorem mono (hx : Tracks E x r h Q) (hQ : ∀ a r' h', Q a r' h' → Q' a r' h') :
    Tracks E x r h Q' := fun a r' hok =>
  (hx a r' hok).imp fun _ h' hpost => ⟨hpost.1, hQ a r' h' hpost.2⟩

/-- A sequence tracks if its second part does from where the first leads. -/
theorem bind (hx : Tracks E x r h fun a r' h' => Tracks E (f a) r' h' S) :
    Tracks E (x >>= f) r h S := by
  intro b r'' hok
  obtain ⟨a, r', hxr, hfr⟩ := bind_eq_ok.1 hok
  rw [leads_bind]
  refine (hx a r' hxr).imp ?_
  rintro _ h' ⟨rfl, hf⟩
  exact hf b r'' hfr

/-- An operation tracks whatever is made of its result. -/
theorem map {g : α → β} (hx : Tracks E x r h fun a => S (g a)) : Tracks E (g <$> x) r h S := by
  rw [map_eq_pure_bind]
  refine bind (hx.mono fun a r' h' hS => ?_)
  rintro _ _ ⟨⟩
  exact ⟨rfl, hS⟩

/-- Nothing needs to be shown of an operation that fails. -/
theorem of_error {e : Failure} (hx : x r = .error e r') : Tracks E x r h Q := by
  intro a r'' hok
  rw [hx] at hok
  cases hok

/-- An operation without a result tracks where each heap leads on its own. -/
theorem of_leads {R H : Heap → Prop} {P : Unit → Heap → Heap → Prop}
    (hr : Leads c r (fun _ => R) fun _ _ => True) (hh : Leads c h (fun _ => H) fun e _ => E e)
    (hP : ∀ r' h', R r' → H h' → P () r' h') : Tracks E c r h P := fun _ r' hok =>
  hh.imp fun _ h' hH => ⟨rfl, hP r' h' (hr.of_ok hok) hH⟩

/-- What else is known to happen in the second heap may be used, and how it can fail there. -/
theorem and_leads {F : Failure → Prop} {P : α → Heap → Prop} (hx : Tracks E x r h Q)
    (hh : Leads x h P fun e _ => F e) :
    Tracks (fun e => E e ∧ F e) x r h fun a r' h' => Q a r' h' ∧ P a h' := fun a r' hok =>
  ((hx a r' hok).and hh).mono (fun _ _ ⟨⟨heq, hQ⟩, hP⟩ => ⟨heq, hQ, heq ▸ hP⟩) fun _ _ he => he

/-- How the operation can fail in the second heap may be weakened. -/
theorem imp_error {F : Failure → Prop} (hx : Tracks E x r h Q) (hE : ∀ e, E e → F e) :
    Tracks F x r h Q := fun a r' hok =>
  (hx a r' hok).mono (fun _ _ hpost => hpost) fun e _ he => hE e he

end Tracks

section

variable {x : Act α} {f : Heap → α} {c : Act Unit} {a : α} {Q : α → Heap → Heap → Prop}
  {S : Unit → Heap → Heap → Prop}

theorem tracks_pure (hQ : Q a r h) : Tracks E (pure a) r h Q := by
  rintro _ _ ⟨⟩
  exact ⟨rfl, hQ⟩

theorem tracks_throw {e : Failure} : Tracks E (throw e : Act α) r h Q := .of_error rfl

theorem tracks_fatal {cause : Fatal} : Tracks E (fatal cause : Act α) r h Q := .of_error rfl

/-- What looks the same in both heaps can be looked at. -/
theorem tracks_view (hf : f h = f r) (hQ : Q (f r) r h) : Tracks E (view f) r h Q := by
  rintro _ _ ⟨⟩
  exact ⟨hf, hQ⟩

theorem tracks_update {g : Heap → Heap} (hS : S () (g r) (g h)) : Tracks E (update g) r h S := by
  rintro _ _ ⟨⟩
  exact ⟨rfl, hS⟩

theorem tracks_onFailure (hx : Tracks (·.isUnderflow = true) x r h Q)
    (hc : ∀ h', Leads c h' (fun _ _ => True) fun e _ => e.isUnderflow = true) :
    Tracks (·.isUnderflow = true) (onFailure x c) r h Q := by
  intro a r' hok
  have hxr : x r = .ok a r' := by
    unfold onFailure at hok
    cases hxr : x r with
    | ok b k =>
      rw [hxr] at hok
      exact hok
    | error e k =>
      rw [hxr] at hok
      dsimp only at hok
      split at hok <;> cases hok
  rw [leads_onFailure]
  refine (hx a r' hxr).mono (fun _ _ hpost => hpost) fun e k he => ?_
  refine (hc k).mono (fun _ _ _ => he) fun e' _ he' => Failure.isUnderflow_andThen he ?_
  rintro rfl
  cases he'

end

end Act

/-! ## Counting without the invariant -/

/-- What is flagged as queued is queued. -/
def Heap.Orderly (h : Heap) : Prop :=
  ∀ n, h.isAllocated n = true → (h.status n).contains .moribund = true → n ∈ h.moribund

/-- A heap that satisfies the invariant is orderly. -/
theorem Invariant.orderly (inv : Invariant law w h) : h.Orderly := fun n hn hflag =>
  (inv.mem_moribund n).2 ⟨hn, hflag⟩

/-- Only counts and what goes with them have changed, and the heap is as orderly as before. -/
structure Tallied (h h' : Heap) : Prop extends Recounted h h' where
  orderly : h.Orderly → h'.Orderly

namespace Tallied

theorem refl (h : Heap) : Tallied h h := ⟨.refl h, fun ho => ho⟩

theorem trans {h'' : Heap} (h₁ : Tallied h h') (h₂ : Tallied h' h'') : Tallied h h'' :=
  ⟨h₁.toRecounted.trans h₂.toRecounted, fun ho => h₂.orderly (h₁.orderly ho)⟩

/-- Another status for one node and another queue leave an orderly heap if the node is on the queue
when its new status says so, and no other node has been taken off. -/
theorem of_setStatus {s : Status} {q : List NodeId}
    (hflags : ∀ f, f ≠ .moribund → f ≠ .referenced → s.contains f = (h.status n).contains f)
    (hothers : ∀ m, m ≠ n → m ∈ h.moribund → m ∈ q)
    (hself : (n ∈ h.moribund ∨ (h.status n).contains .moribund = false) →
      s.contains .moribund = true → n ∈ q) (hn : n < h.nodes.size) :
    Tallied h { h.setStatus n s with moribund := q } where
  toRecounted := Heap.recounted_setStatus hn hflags q
  orderly := by
    intro ho m hm hflag
    rw [Heap.status_setStatus_with hn] at hflag
    have halloc : h.isAllocated m = true := (h.isAllocated_setStatus n m s).symm.trans hm
    split_ifs at hflag with hmn
    · rw [hmn] at halloc ⊢
      refine hself ?_ hflag
      cases hold : (h.status n).contains .moribund with
      | true => exact .inl (ho n halloc hold)
      | false => exact .inr rfl
    · exact hothers m hmn (ho m halloc hflag)

end Tallied

namespace Collector

/-- Counting up fails only on a node that is flagged as queued and is not. -/
theorem increment_tallied (n : NodeId) : Leads (increment n) h (fun _ => Tallied h)
    fun _ _ => (h.status n).contains .moribund = true ∧ n ∉ h.moribund := by
  refine (increment_leads n).mono ?_ ?_
  · rintro _ _ rfl
    by_cases hn : n < h.nodes.size
    · refine Tallied.of_setStatus (fun f => (h.status n).contains_increment_of_ne)
        (fun m hmn hm => ?_) (fun hold hflag => ?_) hn
      · split_ifs
        · exact (List.mem_erase_of_ne hmn).2 hm
        · exact hm
      · -- A node that is still flagged was so before and has not been revived.
        rw [Status.contains_moribund_increment, Bool.and_eq_true, decide_eq_true_iff] at hflag
        rw [if_neg hflag.2]
        exact hold.resolve_right (by simp [hflag.1])
    · -- A node that is not there has no status to count in, and it is not revived.
      have hfresh := Heap.status_of_le (Nat.not_lt.1 hn)
      rw [Heap.setStatus_of_le (Nat.not_lt.1 hn), hfresh, if_neg (by decide)]
      exact .refl h
  · rintro _ _ ⟨hrevived, hnot⟩
    exact ⟨Status.contains_moribund_of_revived hrevived, hnot⟩

/-- Counting down fails only by going below zero. -/
theorem decrement_tallied (n : NodeId) : Leads (decrement n) h (fun _ => Tallied h)
    fun e _ => e.isUnderflow = true := by
  by_cases h0 : (h.status n).count = 0
  · unfold decrement
    simp only [leads_bind, leads_view]
    rw [Status.decrement?_of_count_eq_zero h0]
    exact rfl
  · have hn := Heap.lt_size_of_count h0
    cases hsat : (h.status n).isSaturated with
    | true =>
      refine (decrement_leads (Status.decrement?_of_isSaturated hsat)).leads ?_
      rintro _ _ rfl
      refine Tallied.of_setStatus (fun _ _ _ => rfl) (fun _ _ hm => hm) (fun hold hflag => ?_) hn
      exact hold.resolve_right (by simp [hflag])
    | false =>
      obtain ⟨t, outcome, heq, -, hflags, hmoribund, houtcome⟩ := Status.decrement?_eq hsat h0
      refine (decrement_leads heq).leads ?_
      rintro _ _ rfl
      refine Tallied.of_setStatus (fun f hm _ => hflags f hm) (fun m _ hm => ?_)
        (fun hold hflag => ?_) hn
      · split_ifs
        · exact List.mem_cons_of_mem n hm
        · exact hm
      · split_ifs with horphaned
        · exact List.mem_cons_self
        · refine hold.resolve_right fun hclear => horphaned (houtcome.2 ⟨?_, hclear⟩)
          -- The count must have reached zero for the flag to be set now.
          rw [hmoribund, hclear, Bool.false_or, decide_eq_true_iff] at hflag
          exact hflag

/-- Releasing edges fails only if a count goes below zero. -/
theorem releaseAll_tallied (ns : List NodeId) : Leads (releaseAll ns) h (fun _ => Tallied h)
    fun e _ => e.isUnderflow = true := by
  induction ns generalizing h with
  | nil => exact .refl h
  | cons n ns ih =>
    unfold releaseAll
    rw [leads_ensuring]
    refine (decrement_tallied n).mono (fun _ h₁ ht₁ => ?_) fun e h₁ he => ?_
    · exact ih.imp fun _ h₂ ht₂ => ht₁.trans ht₂
    · refine ih.mono (fun _ _ _ => he) fun e' _ he' => Failure.isUnderflow_andThen he ?_
      rintro rfl
      cases he'

end Collector

/-! ## Two heaps that look the same -/

/-- The node that a handle leads to, if it leads to one. -/
def Handle.target? : Handle → Option NodeId
  | .edge n | .erased n | .root n _ | .stackRoot n _ => some n
  | .weak _ | .inhibitor | .snapshot _ | .source _ _ => none

/-- The node that the handle of a name leads to, if there is one. -/
def Heap.target? (h : Heap) (name : HandleName) : Option NodeId :=
  (h.handles.lookup name).bind Handle.target?

/-- Whether a handle is neither a weak reference nor a guard nor a root source. -/
def Handle.isOrdinary : Handle → Bool
  | .edge _ | .erased _ | .root _ _ | .stackRoot _ _ | .snapshot _ => true
  | .weak _ | .inhibitor | .source _ _ => false

/-- The roots are on given nodes only, and there are neither weak references nor root sources. -/
structure Roots.Within (T : Set NodeId) (x : Roots) : Prop where
  explicit : ∀ n ∈ x.explicit.toList, n ∈ T
  stack : ∀ n ∈ x.stack, n ∈ T
  protect : ∀ n ∈ x.protect, n ∈ T
  nodeStack : ∀ n ∈ x.nodeStack, n ∈ T
  weak : x.weak = .empty
  external : x.external = #[]

/-- All roots are on the given nodes then. -/
theorem Roots.Within.of_mem_rootNodes (hx : h.roots.Within T) (hn : n ∈ h.rootNodes) : n ∈ T := by
  rw [Heap.rootNodes_eq hx.external] at hn
  unfold Heap.stackedRoots at hn
  simp only [List.mem_append, Array.mem_toList_iff] at hn
  rcases hn with hn | (hn | hn) | hn
  · exact hx.explicit n hn
  · exact hx.stack n hn
  · exact hx.protect n hn
  · exact hx.nodeStack n hn

/-- Roots are on given nodes if all that they root are given. -/
theorem Roots.Within.of_forall (hweak : h.roots.weak = .empty) (hexternal : h.roots.external = #[])
    (hroots : ∀ n ∈ h.rootNodes, n ∈ T) : h.roots.Within T := by
  rw [Heap.rootNodes_eq hexternal] at hroots
  unfold Heap.stackedRoots at hroots
  simp only [List.mem_append, Array.mem_toList_iff] at hroots
  exact
    { explicit := fun n hn => hroots n (.inl hn)
      stack := fun n hn => hroots n (.inr (.inl (.inl hn)))
      protect := fun n hn => hroots n (.inr (.inl (.inr hn)))
      nodeStack := fun n hn => hroots n (.inr (.inr hn))
      weak := hweak
      external := hexternal }

/-- The heap `h` mirrors `r`, in which collections are held off, on the nodes of `T`: they have the
same roots and handles, and what `r` has of those nodes `h` has too. The roots and the payloads of
those nodes do not lead out of them. -/
structure Mirrors (T : Set NodeId) (s : Nat) (r h : Heap) : Prop where
  here : r.nodes.size = s
  there : h.nodes.size = s
  kind : h.kind = r.kind
  roots : h.roots = r.roots
  handles : h.handles = r.handles
  dying : h.dying = r.dying
  attached : ∀ n ∈ T, n < h.nodes.size → h.Attached n
  payload : ∀ n ∈ T, h.payload? n = r.payload? n
  within : r.roots.Within T
  closed : ∀ n ∈ T, ∀ p, r.payload? n = some p → ∀ m ∈ p.edges, m ∈ T
  ordinary : ∀ x ∈ r.handles, x.2.isOrdinary = true
  simple : ∀ n p, h.payload? n = some p → p.hook = none ∧ p.borrowed = false
  orderly : h.Orderly
  limit : h.memory.store.limit = none
  inhibited : r.isInhibited = true

namespace Mirrors

/-- There are as many nodes in the one heap as in the other. -/
theorem size (hm : Mirrors T s r h) : h.nodes.size = r.nodes.size := hm.there.trans hm.here.symm

/-- What has storage in the one heap has it in the other. -/
theorem isAllocated (hm : Mirrors T s r h) (hn : n ∈ T) (ha : r.isAllocated n = true) :
    h.isAllocated n = true := by
  have hlt := Heap.lt_size_of_isAllocated ha
  rw [← hm.size] at hlt
  exact (hm.attached n hn hlt).1

/-- No such node is detached, whether it is there or not. -/
theorem isDetached (hm : Mirrors T s r h) (hn : n ∈ T) : h.isDetached n = false := by
  by_cases hlt : n < h.nodes.size
  · exact (hm.attached n hn hlt).2
  · unfold Heap.isDetached
    rw [Heap.status_of_le (Nat.not_lt.1 hlt), Status.contains_fresh]
    rfl

/-- What is reachable is mirrored. -/
theorem mem_of_reach (hm : Mirrors T s r h) (hn : r.Reach n) : n ∈ T := by
  induction hn with
  | root hn => exact hm.within.of_mem_rootNodes hn
  | edge _ hp hedge ih => exact hm.closed _ ih _ hp _ hedge
  | weak he =>
    rw [hm.within.weak] at he
    exact absurd he List.not_mem_nil

/-- The same is reachable in both heaps. -/
theorem reach_iff (hm : Mirrors T s r h) : h.Reach n ↔ r.Reach n := by
  have hroots : h.rootNodes = r.rootNodes := Heap.rootNodes_congr hm.within.external hm.roots
  have hweak : h.roots.weak = r.roots.weak := by rw [hm.roots]
  constructor
  · refine .mono hroots.symm hweak.symm fun m p _ hreach hp => ?_
    rw [← hm.payload m (hm.mem_of_reach hreach)]
    exact hp
  · refine .mono hroots hweak fun m p hreach _ hp => ?_
    rw [hm.payload m (hm.mem_of_reach hreach)]
    exact hp

/-- A heap that mirrors another is plain. -/
theorem plain (hm : Mirrors T s r h) (inv : Invariant law w h) : h.Plain where
  simple := hm.simple
  weak := by
    rw [hm.roots]
    exact hm.within.weak
  external := by
    rw [hm.roots]
    exact hm.within.external
  attached := fun n hn => hm.attached n (hm.mem_of_reach (hm.reach_iff.1 hn))
    (Heap.lt_size_of_isAllocated (hn.isAllocated inv))
  limit := hm.limit

/-! What is done to both heaps leaves the one the mirror of the other. -/

/-- Counts and queues do not show in the mirror. -/
theorem recount (hm : Mirrors T s r h) (hr : Recounted r r') (hh : Tallied h h') :
    Mirrors T s r' h' where
  here := hr.size_nodes.trans hm.here
  there := hh.size_nodes.trans hm.there
  kind := by
    rw [hh.kind, hr.kind]
    exact hm.kind
  roots := by
    rw [hh.roots, hr.roots]
    exact hm.roots
  handles := by
    rw [hh.handles, hr.handles]
    exact hm.handles
  dying := by
    rw [hh.eq, hr.eq]
    exact hm.dying
  attached := by
    unfold Heap.Attached
    rw [hh.size_nodes, hh.isAllocated, hh.isDetached]
    exact hm.attached
  payload := by
    rw [hh.payload?, hr.payload?]
    exact hm.payload
  within := by
    rw [hr.roots]
    exact hm.within
  closed := by
    rw [hr.payload?]
    exact hm.closed
  ordinary := by
    rw [hr.handles]
    exact hm.ordinary
  simple := by
    rw [hh.payload?]
    exact hm.simple
  orderly := hh.orderly hm.orderly
  limit := by
    rw [hh.eq]
    exact hm.limit
  inhibited := by
    rw [hr.eq]
    exact hm.inhibited

/-- Other handles may be held. -/
theorem hold {x : List (HandleName × Handle)} (hm : Mirrors T s r h)
    (hx : ∀ y ∈ x, y.2.isOrdinary = true) :
    Mirrors T s { r with handles := x } { h with handles := x } :=
  { hm with
    handles := rfl
    ordinary := hx }

/-- The roots may change as long as they stay on nodes that are mirrored. -/
theorem reroot (hm : Mirrors T s r h) (f : Roots → Roots) (hf : (f r.roots).Within T) :
    Mirrors T s (r.modifyRoots f) (h.modifyRoots f) :=
  { hm with
    roots := congrArg f hm.roots
    within := hf }

/-- A payload may change as long as its edges stay with nodes that are mirrored. -/
theorem change {f : Payload → Payload} (hm : Mirrors T s r h) (hn : n ∈ T)
    (hf : ∀ p, r.payload? n = some p →
      ((f p).hook = p.hook ∧ (f p).borrowed = p.borrowed) ∧ ∀ m ∈ (f p).edges, m ∈ T) :
    Mirrors T s (r.modifyPayload n f) (h.modifyPayload n f) where
  here := (r.size_nodes_modifyPayload n f).trans hm.here
  there := (h.size_nodes_modifyPayload n f).trans hm.there
  kind := by
    rw [h.kind_modifyPayload, r.kind_modifyPayload]
    exact hm.kind
  roots := hm.roots
  handles := hm.handles
  dying := hm.dying
  attached := by
    unfold Heap.Attached
    rw [h.size_nodes_modifyPayload, h.isAllocated_modifyPayload, h.isDetached_modifyPayload]
    exact hm.attached
  payload := by
    intro m hmem
    rw [Heap.payload?_modifyPayload, Heap.payload?_modifyPayload, hm.payload m hmem]
  within := hm.within
  closed := by
    intro m hmem p hp k hk
    rw [Heap.payload?_modifyPayload] at hp
    split_ifs at hp with hmn
    · rw [hmn] at hp
      obtain ⟨q, hq, rfl⟩ := Option.map_eq_some_iff.1 hp
      exact (hf q hq).2 k hk
    · exact hm.closed m hmem p hp k hk
  ordinary := hm.ordinary
  simple := by
    intro m p hp
    rw [Heap.payload?_modifyPayload] at hp
    split_ifs at hp with hmn
    · rw [hmn] at hp
      obtain ⟨q, hq, rfl⟩ := Option.map_eq_some_iff.1 hp
      have hsimple := hm.simple n q hq
      rw [hm.payload n hn] at hq
      rw [(hf q hq).1.1, (hf q hq).1.2]
      exact hsimple
    · exact hm.simple m p hp
  orderly := by
    unfold Heap.Orderly
    rw [h.isAllocated_modifyPayload, h.status_modifyPayload]
    exact hm.orderly
  limit := hm.limit
  inhibited := hm.inhibited

end Mirrors

end HybridHeap
