import HybridHeap.Proofs.Mirrors

/-!
# The mutator's steps keep two heaps alike

Every plain step does the same to two heaps that mirror each other on the nodes it names: where it
succeeds in the one it succeeds in the other, and they mirror each other afterwards on the nodes
that may still be named. For most operations this follows from what they read; allocating is the one
that may collect, which the second heap does and the first one does not.
-/

namespace HybridHeap

open Collector Act

variable {α β : Type} {E : Failure → Prop} {T : Set NodeId} {s : Nat} {r h r' h' : Heap}
  {n : NodeId} {law : Law} {w : Juncture}

/-! ## Operations of the mutator -/

namespace Mutator

variable {name : HandleName} {Q : α → Heap → Heap → Prop} {S : Unit → Heap → Heap → Prop}

theorem tracks_refuse : Tracks E (refuse : Act α) r h Q := .of_error rfl

/-- A step goes on under the condition that it requires, which has to hold in both heaps. -/
theorem tracks_require {p : Heap → Bool} (hp : p r = true → p h = true)
    (hS : p r = true → S () r h) : Tracks E (require p) r h S := by
  intro a r' hok
  unfold require at hok ⊢
  cases hpr : p r with
  | false =>
    obtain ⟨b, k, hview, hrefuse⟩ := bind_eq_ok.1 hok
    cases hview
    rw [hpr] at hrefuse
    cases hrefuse
  | true =>
    obtain ⟨b, k, hview, hpure⟩ := bind_eq_ok.1 hok
    cases hview
    rw [hpr] at hpure
    cases hpure
    simp only [leads_bind, leads_view, hp hpr]
    exact ⟨trivial, hS hpr⟩

theorem tracks_requireUnused (hm : Mirrors T s r h) (hS : S () r h) :
    Tracks E (requireUnused name) r h S :=
  tracks_require (fun hr => by rw [hm.handles]; exact hr) fun _ => hS

theorem tracks_requireNoDestructor (hm : Mirrors T s r h) (hS : S () r h) :
    Tracks E requireNoDestructor r h S :=
  tracks_require (fun hr => by rw [hm.dying]; exact hr) fun _ => hS

theorem tracks_requireAllocated (hm : Mirrors T s r h) (hn : n ∈ T) (hS : S () r h) :
    Tracks E (requireAllocated n) r h S :=
  tracks_require (hm.isAllocated hn) fun _ => hS

theorem tracks_requireReferable (hm : Mirrors T s r h) (hn : n ∈ T)
    (hS : S () r h) : Tracks E (requireReferable n) r h S := by
  refine tracks_require (fun hr => ?_) fun _ => hS
  rw [Bool.and_eq_true] at hr ⊢
  rw [hm.dying]
  exact ⟨hm.isAllocated hn hr.1, hr.2⟩

/-- A step goes on with what is held under a name. -/
theorem tracks_handle {P : Handle → Heap → Heap → Prop} (hm : Mirrors T s r h)
    (hP : ∀ x, r.handles.lookup name = some x → P x r h) : Tracks E (handle name) r h P := by
  unfold handle
  refine .bind (tracks_view (by rw [hm.handles]) ?_)
  cases hx : r.handles.lookup name with
  | none => exact tracks_refuse
  | some x => exact tracks_pure (hP x hx)

/-- Something ordinary may be kept. -/
theorem tracks_keep {x : Handle} (hm : Mirrors T s r h) (hx : x.isOrdinary = true) :
    Tracks E (keep name x) r h fun _ => Mirrors T s := by
  refine tracks_update ?_
  rw [hm.handles]
  refine hm.hold fun y hy => ?_
  obtain rfl | hy := List.mem_cons.1 hy
  · exact hx
  · exact hm.ordinary y hy

theorem tracks_release (hm : Mirrors T s r h) :
    Tracks E (release name) r h fun _ => Mirrors T s := by
  refine tracks_update ?_
  rw [hm.handles]
  exact hm.hold fun y hy => hm.ordinary y (List.mem_of_mem_eraseP hy)

theorem tracks_increment (hm : Mirrors T s r h) (hn : n ∈ T) :
    Tracks E (increment n) r h fun _ => Mirrors T s := by
  refine .of_leads (R := Recounted r) (H := Tallied h) ?_ ?_ fun r' h' => hm.recount
  · exact (increment_tallied n).mono (fun _ _ ht => ht.toRecounted) fun _ _ _ => trivial
  · refine (increment_tallied n).mono (fun _ _ ht => ht) fun e _ he => ?_
    -- A node that is mirrored is on the queue if its flag says so.
    exact absurd (hm.orderly n (hm.attached n hn (Heap.lt_size_of_contains he.1)).1 he.1) he.2

theorem tracks_decrement (hm : Mirrors T s r h) (n : NodeId) :
    Tracks (·.isUnderflow = true) (decrement n) r h fun _ => Mirrors T s := by
  refine .of_leads (R := Recounted r) (H := Tallied h) ?_ (decrement_tallied n)
    fun r' h' => hm.recount
  exact (decrement_tallied n).mono (fun _ _ ht => ht.toRecounted) fun _ _ _ => trivial

theorem tracks_releaseAll (hm : Mirrors T s r h) (ns : List NodeId) :
    Tracks (·.isUnderflow = true) (releaseAll ns) r h fun _ => Mirrors T s := by
  refine .of_leads (R := Recounted r) (H := Tallied h) ?_ (releaseAll_tallied ns)
    fun r' h' => hm.recount
  exact (releaseAll_tallied ns).mono (fun _ _ ht => ht.toRecounted) fun _ _ _ => trivial

/-! ### References -/

theorem target?_of_lookup {x : Handle} (hx : r.handles.lookup name = some x)
    (hn : x.target? = some n) : n ∈ r.target? name := by
  unfold Heap.target?
  rw [hx]
  exact hn

theorem tracks_newRoot (hm : Mirrors T s r h) (hn : n ∈ T) :
    Tracks E (newRoot n) r h fun _ => Mirrors T s := by
  unfold newRoot
  refine .bind ((tracks_increment hm hn).mono fun _ r₁ h₁ hm₁ => ?_)
  refine .bind (tracks_view (by rw [hm₁.roots]) ?_)
  refine .bind (tracks_update (tracks_pure (hm₁.reroot _ { hm₁.within with explicit := ?_ })))
  intro m hmem
  obtain rfl | hmem := SlotTable.mem_of_mem_toList_insert hmem
  · exact hn
  · exact hm₁.within.explicit m hmem

theorem tracks_dropRoot {slot : Nat} (hm : Mirrors T s r h) :
    Tracks (·.isUnderflow = true) (dropRoot n slot) r h fun _ => Mirrors T s := by
  unfold dropRoot
  refine .bind (tracks_update (tracks_decrement (hm.reroot _ { hm.within with explicit := ?_ }) n))
  exact fun m hmem => hm.within.explicit m (SlotTable.mem_of_mem_toList_erase hmem)

/-- What is on a stack after a node was pushed is mirrored if the node is. -/
theorem mem_of_mem_push {stack : Array NodeId} (hstack : ∀ m ∈ stack, m ∈ T) (hn : n ∈ T) :
    ∀ m ∈ stack.push n, m ∈ T := by
  intro m hmem
  obtain hmem | rfl := Array.mem_push.1 hmem
  · exact hstack m hmem
  · exact hn

theorem tracks_newStackRoot (hm : Mirrors T s r h) (hn : n ∈ T) :
    Tracks E (newStackRoot n) r h fun _ => Mirrors T s := by
  unfold newStackRoot
  refine .bind (tracks_view (by rw [hm.roots]) ?_)
  exact .bind (tracks_update (tracks_pure (hm.reroot _
    { hm.within with stack := mem_of_mem_push hm.within.stack hn })))

theorem tracks_dropStackRoot {index : Nat} (hm : Mirrors T s r h) :
    Tracks E (dropStackRoot n index) r h fun _ => Mirrors T s := by
  unfold dropStackRoot
  refine .bind (tracks_view (by rw [hm.roots]) ?_)
  split
  · split
    · exact .bind tracks_fatal
    · refine tracks_update (hm.reroot _ { hm.within with stack := fun m hmem => ?_ })
      exact hm.within.stack m (mem_of_mem_pop hmem)
  · exact tracks_pure hm

theorem tracks_requireRegistered {index : Nat} (hm : Mirrors T s r h) (hS : S () r h) :
    Tracks E (requireRegistered n index) r h S := by
  unfold requireRegistered
  refine .bind (tracks_view (by rw [hm.roots]) ?_)
  split
  · exact .bind (tracks_view (by rw [hm.kind]) tracks_fatal)
  · exact tracks_pure hS

/-- What is taken of a node that is mirrored is in hand. -/
theorem tracks_takeEdge (hm : Mirrors T s r h) (hn : n ∈ T) :
    Tracks E (takeEdge n) r h fun x r' h' => x.isOrdinary = true ∧ Mirrors T s r' h' :=
  .bind ((tracks_increment hm hn).mono fun _ _ _ hm₁ => tracks_pure ⟨rfl, hm₁⟩)

theorem tracks_takeErased (hm : Mirrors T s r h) (hn : n ∈ T) :
    Tracks E (takeErased n) r h fun x r' h' => x.isOrdinary = true ∧ Mirrors T s r' h' :=
  .bind ((tracks_increment hm hn).mono fun _ _ _ hm₁ => tracks_pure ⟨rfl, hm₁⟩)

theorem tracks_takeRoot (hm : Mirrors T s r h) (hn : n ∈ T) :
    Tracks E (takeRoot n) r h fun x r' h' => x.isOrdinary = true ∧ Mirrors T s r' h' :=
  .bind ((tracks_newRoot hm hn).mono fun _ _ _ hm₁ => tracks_pure ⟨rfl, hm₁⟩)

theorem tracks_takeStackRoot (hm : Mirrors T s r h) (hn : n ∈ T) :
    Tracks E (takeStackRoot n) r h fun x r' h' => x.isOrdinary = true ∧ Mirrors T s r' h' :=
  .bind ((tracks_newStackRoot hm hn).mono fun _ _ _ hm₁ => tracks_pure ⟨rfl, hm₁⟩)

/-- Whatever reference is taken, it can be kept. -/
theorem tracks_refer {take : Act Handle} (hm : Mirrors T s r h)
    (htake : Tracks E take r h fun x r' h' => x.isOrdinary = true ∧ Mirrors T s r' h') :
    Tracks E (refer name n take) r h fun _ => Mirrors T s := by
  unfold refer
  refine .bind (tracks_requireUnused hm (.bind (htake.mono fun x r₁ h₁ hx => ?_)))
  exact .bind ((tracks_keep hx.2 hx.1).mono fun _ _ _ hm₂ => tracks_pure hm₂)

theorem tracks_referTo {take : NodeId → Act Handle} (hm : Mirrors T s r h) (hn : n ∈ T)
    (htake : Tracks E (take n) r h fun x r' h' => x.isOrdinary = true ∧ Mirrors T s r' h') :
    Tracks E (referTo name n take) r h fun _ => Mirrors T s :=
  .bind (tracks_requireReferable hm hn (tracks_refer hm htake))

theorem tracks_referToTarget {source : HandleName} {take : NodeId → Act Handle}
    (hm : Mirrors T s r h) (hsource : ∀ n ∈ r.target? source, n ∈ T)
    (htake : ∀ n ∈ T,
      Tracks E (take n) r h fun x r' h' => x.isOrdinary = true ∧ Mirrors T s r' h') :
    Tracks E (referToTarget name source take) r h fun _ => Mirrors T s := by
  unfold referToTarget
  refine .bind (tracks_handle hm fun x hx => ?_)
  split
  · exact tracks_refer hm (htake _ (hsource _ (target?_of_lookup hx rfl)))
  · exact tracks_refuse

theorem tracks_edgeFrom {source : HandleName} (hm : Mirrors T s r h)
    (hsource : ∀ n ∈ r.target? source, n ∈ T) :
    Tracks E (edgeFrom name source) r h fun _ => Mirrors T s := by
  unfold edgeFrom
  refine .bind (tracks_requireUnused hm (.bind (tracks_handle hm fun x hx => ?_)))
  split
  · exact tracks_refer hm (tracks_takeEdge hm (hsource _ (target?_of_lookup hx rfl)))
  · refine .bind (tracks_requireRegistered hm ?_)
    exact tracks_refer hm (tracks_takeEdge hm (hsource _ (target?_of_lookup hx rfl)))
  · exact tracks_refuse

theorem tracks_copy {source : HandleName} (hm : Mirrors T s r h)
    (hsource : ∀ n ∈ r.target? source, n ∈ T) :
    Tracks E (copy name source) r h fun _ => Mirrors T s := by
  unfold copy
  refine .bind (tracks_handle hm fun x hx => ?_)
  split
  · exact tracks_refer hm (tracks_takeEdge hm (hsource _ (target?_of_lookup hx rfl)))
  · exact tracks_refer hm (tracks_takeErased hm (hsource _ (target?_of_lookup hx rfl)))
  · exact tracks_refer hm (tracks_takeRoot hm (hsource _ (target?_of_lookup hx rfl)))
  · exact tracks_refuse

theorem tracks_eraseKind (hm : Mirrors T s r h) :
    Tracks E (eraseKind name) r h fun _ => Mirrors T s := by
  unfold eraseKind
  refine .bind (tracks_handle hm fun x _ => ?_)
  split
  · refine .bind ((tracks_release hm).mono fun _ _ _ hm₁ => ?_)
    exact .bind ((tracks_keep hm₁ rfl).mono fun _ _ _ hm₂ => tracks_pure hm₂)
  · exact tracks_refuse

theorem tracks_downcast {source : HandleName} {kind : Kind} (hm : Mirrors T s r h)
    (hsource : ∀ n ∈ r.target? source, n ∈ T) :
    Tracks E (downcast name source kind) r h fun _ => Mirrors T s := by
  unfold downcast
  refine .bind (tracks_requireUnused hm (.bind (tracks_handle hm fun x hx => ?_)))
  split
  · refine .bind (tracks_view (by rw [hm.kind]) ?_)
    split
    · refine .map ?_
      exact tracks_refer hm (tracks_takeEdge hm (hsource _ (target?_of_lookup hx rfl)))
    · exact tracks_pure hm
  · exact tracks_refuse

theorem tracks_isKind {kind : Kind} (hm : Mirrors T s r h) :
    Tracks E (isKind name kind) r h fun _ => Mirrors T s := by
  unfold isKind
  refine .bind (tracks_handle hm fun x _ => ?_)
  split
  · exact tracks_view (by rw [hm.kind]) hm
  · exact tracks_refuse

theorem tracks_dropHandle {x : Handle} (hm : Mirrors T s r h) (hx : x.isOrdinary = true) :
    Tracks (·.isUnderflow = true) (dropHandle x) r h fun _ => Mirrors T s := by
  cases x with
  | edge m => exact tracks_decrement hm m
  | erased m => exact tracks_decrement hm m
  | root m slot => exact tracks_dropRoot hm
  | stackRoot m index => exact tracks_dropStackRoot hm
  | snapshot s => exact tracks_pure hm
  | weak slot => cases hx
  | inhibitor => cases hx
  | source s identifier => cases hx

theorem tracks_dropNamed (hm : Mirrors T s r h) :
    Tracks (·.isUnderflow = true) (dropNamed name) r h fun _ => Mirrors T s := by
  unfold dropNamed
  refine .bind (tracks_handle hm fun x hx => ?_)
  have hordinary : x.isOrdinary = true :=
    hm.ordinary _ ((Heap.perm_handles hx).mem_iff.2 List.mem_cons_self)
  exact .bind ((tracks_release hm).mono fun _ _ _ hm₁ => tracks_dropHandle hm₁ hordinary)

theorem tracks_forget (hm : Mirrors T s r h) :
    Tracks E (forget name) r h fun _ => Mirrors T s := by
  unfold forget
  refine .bind (tracks_handle hm fun x _ => ?_)
  exact .bind ((tracks_release hm).mono fun _ _ _ hm₁ => tracks_update { hm₁ with })

theorem tracks_retarget {target : HandleName} (hm : Mirrors T s r h)
    (htarget : ∀ n ∈ r.target? target, n ∈ T) :
    Tracks E (retarget name target) r h fun _ => Mirrors T s := by
  unfold retarget
  refine .bind (tracks_requireNoDestructor hm (.bind (tracks_handle hm fun x _ => ?_)))
  refine .bind (tracks_handle hm fun y hy => ?_)
  split
  · rename_i n index m _
    have hmem : m ∈ T := htarget m (target?_of_lookup hy rfl)
    refine .bind (tracks_view (by rw [hm.kind]) ?_)
    refine .bind (tracks_view (by rw [hm.kind]) ?_)
    split
    · exact .bind tracks_refuse
    · refine .bind (tracks_requireRegistered hm ?_)
      refine .bind (tracks_update ?_)
      have hm₁ : Mirrors T s
          (r.modifyRoots fun x => { x with stack := x.stack.setIfInBounds index m })
          (h.modifyRoots fun x => { x with stack := x.stack.setIfInBounds index m }) :=
        hm.reroot _ { hm.within with
          stack := fun k hk => (Array.mem_or_eq_of_mem_setIfInBounds hk).elim
            (hm.within.stack k) fun heq => heq ▸ hmem }
      refine .bind ((tracks_release hm₁).mono fun _ _ _ hm₂ => ?_)
      exact tracks_keep hm₂ rfl
  · exact tracks_refuse

theorem tracks_isSame {a b : HandleName} (hm : Mirrors T s r h) :
    Tracks E (isSame a b) r h fun _ => Mirrors T s := by
  unfold isSame
  refine .bind (tracks_handle hm fun x _ => .bind (tracks_handle hm fun y _ => ?_))
  split
  · exact tracks_pure hm
  · exact tracks_pure hm
  · exact tracks_pure hm
  · exact tracks_refuse

/-! ### Payloads -/

theorem tracks_requireAttached (hm : Mirrors T s r h) (hn : n ∈ T) (hS : S () r h) :
    Tracks E (requireAttached n) r h S := by
  unfold requireAttached
  -- The node may not be detached in the first heap, and is not in the second.
  cases hd : r.isDetached n with
  | true =>
    intro a r' hok
    simp only [bind, EStateM.bind, view, hd, if_true] at hok
    cases hok
  | false =>
    refine .bind (tracks_view (by rw [hd, hm.isDetached hn]) ?_)
    rw [hd]
    exact tracks_pure hS

/-- The payload that can be borrowed in the one heap can be borrowed in the other. -/
theorem tracks_borrow {P : Payload → Heap → Heap → Prop} (hm : Mirrors T s r h) (hn : n ∈ T)
    (hP : ∀ p, r.payload? n = some p → P p r h) : Tracks E (borrow n) r h P := by
  unfold borrow
  refine .bind (tracks_view (hm.payload n hn) ?_)
  cases hp : r.payload? n with
  | none => exact tracks_refuse
  | some p =>
    dsimp only
    split
    · exact tracks_throw
    · exact tracks_pure (hP p hp)

theorem tracks_look (hm : Mirrors T s r h) (hn : n ∈ T) :
    Tracks E (look n) r h fun _ => Mirrors T s := by
  unfold look
  refine .bind (tracks_requireAttached hm hn ?_)
  exact .bind (tracks_borrow hm hn fun p _ => tracks_pure hm)

/-- Changing the edges of a payload, as long as none leads to a node that is not mirrored. -/
theorem tracks_change {f : Payload → Payload} (hm : Mirrors T s r h) (hn : n ∈ T)
    (hf : ∀ p, r.payload? n = some p →
      ((f p).hook = p.hook ∧ (f p).borrowed = p.borrowed) ∧ ∀ m ∈ (f p).edges, m ∈ T) :
    Tracks E (change n f) r h fun _ => Mirrors T s :=
  tracks_update (hm.change hn hf)

theorem tracks_readNamed (hm : Mirrors T s r h) (hname : ∀ n ∈ r.target? name, n ∈ T) :
    Tracks E (readNamed name) r h fun _ => Mirrors T s := by
  unfold readNamed
  refine .bind (tracks_handle hm fun x hx => ?_)
  split
  · exact tracks_look hm (hname _ (target?_of_lookup hx rfl))
  · exact tracks_look hm (hname _ (target?_of_lookup hx rfl))
  · refine .bind (tracks_requireRegistered hm ?_)
    exact tracks_look hm (hname _ (target?_of_lookup hx rfl))
  · exact tracks_refuse

/-- A payload that may gain one edge, which leads to a node that is mirrored. -/
theorem tracks_change_gain {f : Payload → Payload} {target : NodeId} (hm : Mirrors T s r h)
    (hn : n ∈ T) (htarget : target ∈ T)
    (hf : ∀ p, (f p).hook = p.hook ∧ (f p).borrowed = p.borrowed)
    (hedges : ∀ p, r.payload? n = some p → ∀ m ∈ (f p).edges, m = target ∨ m ∈ p.edges) :
    Tracks E (change n f) r h fun _ => Mirrors T s := by
  refine tracks_change hm hn fun p hp => ⟨hf p, fun m hmem => ?_⟩
  rcases hedges p hp m hmem with rfl | hold
  · exact htarget
  · exact hm.closed n hn p hp m hold

/-- The edges at places after one more was put in. -/
theorem mem_of_mem_putInto {front : Bool} {m : NodeId} {places : List (Option NodeId)}
    (hm : m ∈ (putInto front (some n) places).filterMap id) :
    m = n ∨ m ∈ places.filterMap id := by
  rw [filterMap_putInto] at hm
  cases front with
  | true => exact List.mem_cons.1 hm
  | false =>
    rcases List.mem_append.1 hm with hold | hnew
    · exact .inr hold
    · exact .inl (List.mem_singleton.1 hnew)

/-- The edges at places of which one more has been filled. -/
theorem mem_of_fillFirst? {m : NodeId} {places places' : List (Option NodeId)}
    (hfill : fillFirst? n places = some places') (hm : m ∈ places'.filterMap id) :
    m = n ∨ m ∈ places.filterMap id := by
  have hcount := count_fillFirst? (m := m) hfill
  have hpos : 0 < (places'.filterMap id).count m := List.count_pos_iff.2 hm
  rw [List.count_singleton] at hcount
  split at hcount
  · rename_i heq
    exact .inl (beq_iff_eq.1 heq).symm
  · exact .inr (List.count_pos_iff.1 (by omega))

theorem tracks_store {target : NodeId} {hidden front : Bool} (hm : Mirrors T s r h) (hn : n ∈ T)
    (htarget : target ∈ T) :
    Tracks (·.isUnderflow = true) (store n target hidden front) r h fun _ => Mirrors T s := by
  unfold store
  refine .bind (tracks_view (by rw [hm.kind]) ?_)
  split
  · refine .bind (tracks_view (by rw [hm.kind]) ?_)
    split
    · exact .bind tracks_refuse
    · refine .bind ((tracks_increment hm htarget).mono fun _ r₁ h₁ hm₁ => ?_)
      refine .bind (tracks_onFailure ?_ fun k => ?_)
      · refine tracks_borrow hm₁ hn fun p _ => ?_
        refine .bind (.mono (tracks_change hm₁ hn ?_) fun _ r₂ h₂ hm₂ => ?_)
        · refine fun q _ => ⟨⟨rfl, rfl⟩, fun m hmem => ?_⟩
          obtain rfl : m = target := by simpa [Payload.edges] using hmem
          exact htarget
        · refine .bind ((tracks_releaseAll hm₂ _).mono fun _ r₃ h₃ hm₃ => ?_)
          exact tracks_decrement hm₃ target
      · exact (decrement_tallied target).imp fun _ _ _ => trivial
  · refine .bind (.map (tracks_borrow hm hn fun p _ => ?_))
    split
    · exact tracks_change hm hn fun q hq => ⟨⟨rfl, rfl⟩, hm.closed n hn q hq⟩
    · exact tracks_change_gain hm hn htarget (fun q => ⟨rfl, rfl⟩) fun q _ m => mem_of_mem_putInto
  · refine .bind (.map (tracks_borrow hm hn fun p _ => ?_))
    exact tracks_change_gain hm hn htarget (fun q => ⟨rfl, rfl⟩) fun q _ m => mem_of_mem_putInto
  · refine .bind (tracks_borrow hm hn fun p hp => ?_)
    split
    · rename_i places hplaces
      refine tracks_change_gain hm hn htarget (fun q => ⟨rfl, rfl⟩) fun q hq m hmem => ?_
      cases hp.symm.trans hq
      exact mem_of_fillFirst? hplaces hmem
    · exact tracks_refuse
  · exact tracks_refuse

theorem tracks_link {target : NodeId} {hidden front : Bool} (hm : Mirrors T s r h) (hn : n ∈ T)
    (htarget : target ∈ T) :
    Tracks (·.isUnderflow = true) (link n target hidden front) r h fun _ => Mirrors T s := by
  unfold link
  refine .bind (tracks_requireAttached hm hn ?_)
  refine .bind ((tracks_increment hm htarget).mono fun _ r₁ h₁ hm₁ => ?_)
  refine tracks_onFailure (tracks_store hm₁ hn htarget) fun k => ?_
  exact (decrement_tallied target).imp fun _ _ _ => trivial

/-- Taking edges out of a payload and releasing what was there. -/
theorem tracks_change_releaseAll {f : Payload → Payload} {ns : List NodeId} (hm : Mirrors T s r h)
    (hn : n ∈ T)
    (hf : ∀ p, r.payload? n = some p →
      ((f p).hook = p.hook ∧ (f p).borrowed = p.borrowed) ∧ ∀ m ∈ (f p).edges, m ∈ T) :
    Tracks (·.isUnderflow = true) (do change n f; releaseAll ns) r h fun _ => Mirrors T s :=
  .bind ((tracks_change hm hn hf).mono fun _ _ _ hm₁ => tracks_releaseAll hm₁ ns)

/-- The edges at places of which one has been emptied were there before. -/
theorem mem_of_mem_set_none {m : NodeId} {place : Nat} {places : List (Option NodeId)}
    (hm : m ∈ (places.set place none).filterMap id) : m ∈ places.filterMap id := by
  obtain ⟨entry, hmem, rfl⟩ := List.mem_filterMap.1 hm
  obtain hmem | heq := List.mem_or_eq_of_mem_set hmem
  · exact List.mem_filterMap.2 ⟨_, hmem, rfl⟩
  · cases heq

theorem tracks_unlink {place : Nat} {hidden : Bool} (hm : Mirrors T s r h) (hn : n ∈ T) :
    Tracks (·.isUnderflow = true) (unlink n place hidden) r h fun _ => Mirrors T s := by
  unfold unlink
  refine .bind (tracks_requireAttached hm hn (.bind (tracks_view (by rw [hm.kind]) ?_)))
  split
  · refine .bind (tracks_borrow hm hn fun p hp => ?_)
    split
    · split
      · exact tracks_refuse
      · refine .bind (.mono (tracks_change hm hn ?_) fun _ r₁ h₁ hm₁ => ?_)
        · exact fun q hq => ⟨⟨rfl, rfl⟩, hm.closed n hn q hq⟩
        · exact .bind ((tracks_decrement hm₁ _).mono fun _ _ _ hm₂ => tracks_pure hm₂)
    · split
      · exact tracks_refuse
      · refine .bind (.mono (tracks_change hm hn ?_) fun _ r₁ h₁ hm₁ => ?_)
        · refine fun q hq => ⟨⟨rfl, rfl⟩, fun k hk => ?_⟩
          exact hm.closed n hn q hq k (((List.eraseIdx_sublist _ _).filterMap id).subset hk)
        · exact .bind ((tracks_releaseAll hm₁ _).mono fun _ _ _ hm₂ => tracks_pure hm₂)
  · split
    · refine .bind (tracks_borrow hm hn fun p hp => ?_)
      refine .bind (.mono (tracks_change hm hn ?_) fun _ r₁ h₁ hm₁ => ?_)
      · refine fun q hq => ⟨⟨rfl, rfl⟩, fun k hk => ?_⟩
        exact hm.closed n hn q hq k (mem_of_mem_set_none hk)
      · exact .bind ((tracks_releaseAll hm₁ _).mono fun _ _ _ hm₂ => tracks_pure hm₂)
    · exact .bind tracks_refuse
  · exact tracks_refuse

theorem tracks_clear {hidden : Bool} (hm : Mirrors T s r h) (hn : n ∈ T) :
    Tracks (·.isUnderflow = true) (clear n hidden) r h fun _ => Mirrors T s := by
  unfold clear
  refine .bind (tracks_requireAttached hm hn (.bind (tracks_view (by rw [hm.kind]) ?_)))
  split
  · exact tracks_refuse
  · refine .bind (tracks_borrow hm hn fun p hp => ?_)
    split
    · exact tracks_change_releaseAll hm hn fun q hq => ⟨⟨rfl, rfl⟩, hm.closed n hn q hq⟩
    · exact tracks_change_releaseAll hm hn fun q hq => ⟨⟨rfl, rfl⟩, by simp [Payload.edges]⟩
  · refine .bind (tracks_borrow hm hn fun p hp => ?_)
    exact tracks_change_releaseAll hm hn fun q hq => ⟨⟨rfl, rfl⟩, by simp [Payload.edges]⟩
  · refine .bind (tracks_borrow hm hn fun p hp => ?_)
    exact tracks_change_releaseAll hm hn fun q hq => ⟨⟨rfl, rfl⟩, by simp [Payload.edges]⟩
  · exact tracks_refuse

/-! ### Stacks of roots -/

theorem tracks_requireStackable (hm : Mirrors T s r h) (hn : n ∈ T) (hS : S () r h) :
    Tracks E (requireStackable n) r h S :=
  .bind (tracks_requireNoDestructor hm (tracks_requireReferable hm hn hS))

theorem tracks_modifyProtect {f : Array NodeId → Array NodeId} (hm : Mirrors T s r h)
    (hf : ∀ n ∈ f r.roots.protect, n ∈ T) :
    Tracks E (modifyProtect f) r h fun _ => Mirrors T s :=
  tracks_update (hm.reroot _ { hm.within with protect := hf })

theorem tracks_modifyNodeStack {f : Array NodeId → Array NodeId} (hm : Mirrors T s r h)
    (hf : ∀ n ∈ f r.roots.nodeStack, n ∈ T) :
    Tracks E (modifyNodeStack f) r h fun _ => Mirrors T s :=
  tracks_update (hm.reroot _ { hm.within with nodeStack := hf })

theorem tracks_protect (hm : Mirrors T s r h) (hn : n ∈ T) :
    Tracks E (protect n) r h fun _ => Mirrors T s := by
  unfold protect
  refine .bind (tracks_requireStackable hm hn (.bind (tracks_view (by rw [hm.roots]) ?_)))
  refine .bind ((tracks_modifyProtect hm ?_).mono fun _ _ _ hm₁ => tracks_pure hm₁)
  exact mem_of_mem_push hm.within.protect hn

theorem tracks_unprotect {count : Nat} (hm : Mirrors T s r h) :
    Tracks E (unprotect count) r h fun _ => Mirrors T s := by
  unfold unprotect
  refine .bind (tracks_view (by rw [hm.roots]) ?_)
  split
  · exact .bind tracks_fatal
  · exact tracks_modifyProtect hm fun m hmem => hm.within.protect m (mem_of_mem_take hmem)

theorem tracks_reprotect {place : Nat} (hm : Mirrors T s r h) (hn : n ∈ T) :
    Tracks E (reprotect n place) r h fun _ => Mirrors T s := by
  unfold reprotect
  refine .bind (tracks_requireStackable hm hn (.bind (tracks_view (by rw [hm.roots]) ?_)))
  split
  · exact .bind tracks_fatal
  · refine tracks_modifyProtect hm fun m hmem => ?_
    obtain hmem | rfl := Array.mem_or_eq_of_mem_setIfInBounds hmem
    · exact hm.within.protect m hmem
    · exact hn

theorem tracks_restoreProtect {size : Nat} (hm : Mirrors T s r h) :
    Tracks E (restoreProtect size) r h fun _ => Mirrors T s := by
  unfold restoreProtect
  refine .bind (tracks_view (by rw [hm.roots]) ?_)
  split
  · exact .bind tracks_fatal
  · exact tracks_modifyProtect hm fun m hmem => hm.within.protect m (mem_of_mem_take hmem)

theorem tracks_push (hm : Mirrors T s r h) (hn : n ∈ T) :
    Tracks E (push n) r h fun _ => Mirrors T s := by
  unfold push
  refine .bind (tracks_requireStackable hm hn ?_)
  exact tracks_modifyNodeStack hm (mem_of_mem_push hm.within.nodeStack hn)

theorem tracks_pop (hm : Mirrors T s r h) : Tracks E pop r h fun _ => Mirrors T s := by
  unfold pop
  refine .bind (tracks_view (by rw [hm.roots]) ?_)
  refine .bind ((tracks_modifyNodeStack hm ?_).mono fun _ _ _ hm₁ => tracks_pure hm₁)
  exact fun m hmem => hm.within.nodeStack m (mem_of_mem_pop hmem)

theorem tracks_restoreStack {size : Nat} (hm : Mirrors T s r h) :
    Tracks E (restoreStack size) r h fun _ => Mirrors T s := by
  unfold restoreStack
  refine .bind (tracks_view (by rw [hm.roots]) ?_)
  split
  · exact .bind tracks_fatal
  · exact tracks_modifyNodeStack hm fun m hmem => hm.within.nodeStack m (mem_of_mem_take hmem)

theorem tracks_takeSnapshot (hm : Mirrors T s r h) :
    Tracks E (takeSnapshot name) r h fun _ => Mirrors T s := by
  unfold takeSnapshot
  refine .bind (tracks_requireUnused hm (.bind (tracks_view (by rw [hm.roots]) ?_)))
  exact .bind ((tracks_keep hm rfl).mono fun _ _ _ hm₁ => tracks_pure hm₁)

theorem tracks_restore (hm : Mirrors T s r h) :
    Tracks E (restore name) r h fun _ => Mirrors T s := by
  unfold restore
  refine .bind (tracks_handle hm fun x _ => ?_)
  split
  · unfold restoreTo
    refine .bind (tracks_view (by rw [hm.roots]) ?_)
    split
    · exact .bind tracks_fatal
    · exact tracks_update (hm.reroot _
        { hm.within with
          stack := fun m hmem => hm.within.stack m (mem_of_mem_take hmem)
          protect := fun m hmem => hm.within.protect m (mem_of_mem_take hmem)
          nodeStack := fun m hmem => hm.within.nodeStack m (mem_of_mem_take hmem) })
  · exact tracks_refuse

end Mutator

/-! ## Allocating -/

/-- The nodes that may still be named after an allocation: those that were reachable before it, and
those that were not there yet. -/
def Heap.secured (r : Heap) : Set NodeId := {n | n < r.nodes.size → r.Reach n}

/-- What is secured depends on the nodes that are there and on what is reachable. -/
theorem Heap.secured_congr (hsize : r'.nodes.size = r.nodes.size)
    (hreach : ∀ n, r.Reach n ↔ r'.Reach n) : r'.secured = r.secured := by
  unfold secured
  ext n
  show (n < r'.nodes.size → r'.Reach n) ↔ (n < r.nodes.size → r.Reach n)
  rw [hsize, hreach]

namespace Collector

variable {run : Runner} {kind : Kind} {payload : Payload}

/-- Where collections are held off a node is built and equipped. -/
theorem allocate_inhibited {fuel : Nat} (hi : r.isInhibited = true) :
    Leads (allocate run fuel kind payload) r
      (fun n r' => n = r.nodes.size ∧ kind.alignment ≤ blockAlignment ∧
        ∃ base, r' = (r.build kind payload).equip n base)
      fun _ _ => True := by
  have hkind : (r.build kind payload).kind r.nodes.size = kind := by
    unfold Heap.kind
    rw [r.getElem?_build, if_pos rfl]
    rfl
  have hstill : (r.build kind payload).isInhibited = true := hi
  unfold allocate place collectIfDue
  simp only [leads_bind, leads_reserve, leads_onFailure, leads_pure, leads_view, hstill,
    Bool.not_true, Bool.false_eq_true, if_false, hkind]
  split
  · simp only [leads_bind, leads_fatal]
    exact leads_of_const trivial
  · rename_i haligned
    simp only [leads_bind, leads_view]
    split
    · exact leads_throw.2 (leads_of_const trivial)
    · rename_i base _
      rw [leads_install]
      exact ⟨trivial, Nat.not_lt.1 haligned, base, rfl⟩

end Collector

namespace Mirrors

variable {k : Heap} {kind : Kind} {payload : Payload}

/-- What is rooted is secured. -/
theorem within_secured (hm : Mirrors T s r h) : r.roots.Within r.secured :=
  .of_forall hm.within.weak hm.within.external fun _ hn _ => .root hn

/-- What the first heap has a payload for after a node was equipped. -/
theorem payload?_equip_build (hm : Mirrors T s r h) (base : Memory.Address) (n : NodeId) :
    ((r.build kind payload).equip r.nodes.size base).payload? n =
      if n = h.nodes.size then some payload else r.payload? n := by
  rw [Heap.payload?_equip, Heap.payload?_build, hm.size]

/-- What was reachable in the first heap was so in the second when the node had been built. -/
theorem reach_build (hm : Mirrors T s r h)
    (inv : Invariant law (Juncture.rest.holding payload.allEdges) h) (hn : r.Reach n) :
    (h.build kind payload).Reach n :=
  (h.reach_build_iff inv kind payload).2 (hm.reach_iff.2 hn)

/-- A secured node that was there when the node was built has not been detached since. -/
theorem attached_of_secured (hm : Mirrors T s r h)
    (inv : Invariant law (Juncture.rest.holding payload.allEdges) h)
    (hs : Spares (h.build kind payload) k) (hn : n ∈ r.secured) (hlt : n < h.nodes.size) :
    k.Attached n :=
  hs.attached n (hm.reach_build inv (hn (hm.size ▸ hlt)))

/-- Secured nodes have kept their payloads in the second heap, and the new node has its own. -/
theorem payload?_of_secured (hm : Mirrors T s r h)
    (inv : Invariant law (Juncture.rest.holding payload.allEdges) h)
    (hs : Spares (h.build kind payload) k) (hn : n ∈ r.secured) :
    k.payload? n = if n = h.nodes.size then some payload else r.payload? n := by
  split_ifs with hne
  · have hunborn : (h.build kind payload).isAllocated n = false := by
      rw [hne, h.isAllocated_build]
      exact Bool.eq_false_iff.2 fun ha => Nat.lt_irrefl _ (Heap.lt_size_of_isAllocated ha)
    rw [(hs.unborn n hunborn).2, h.payload?_build, if_pos hne]
  · rcases Nat.lt_or_ge n h.nodes.size with hlt | hge
    · have hreach : r.Reach n := hn (hm.size ▸ hlt)
      rw [hs.payload n (hm.reach_build inv hreach), h.payload?_build, if_neg hne]
      exact hm.payload n (hm.mem_of_reach hreach)
    · -- Neither heap has anything beyond the new node.
      have hk : k.nodes.size ≤ n := by
        rw [hs.size, show (h.build kind payload).nodes.size = h.nodes.size + 1 from
          Array.size_push _]
        exact Nat.lt_of_le_of_ne hge (Ne.symm hne)
      rw [Heap.payload?_of_le (hm.size ▸ hge : r.nodes.size ≤ n), Heap.payload?_of_le hk]

/-- Secured nodes lead to secured ones only, and so does a new node whose edges are to what is
reachable. -/
theorem closed_secured (hm : Mirrors T s r h) (hedges : ∀ n ∈ payload.edges, r.Reach n)
    (base : Memory.Address) (hn : n ∈ r.secured) {p : Payload}
    (hp : ((r.build kind payload).equip r.nodes.size base).payload? n = some p) :
    ∀ m ∈ p.edges, m ∈ r.secured := by
  intro m hmem _
  rw [hm.payload?_equip_build] at hp
  split_ifs at hp with hne
  · cases hp
    exact hedges m hmem
  · have hlt : n < r.nodes.size := Heap.lt_size_of_payload (by simp [hp])
    exact .edge (hn hlt) hp hmem

/-- Equipping a new node in both heaps leaves the one the mirror of the other on the nodes that are
secured, whatever collections have run in the second since the node was built. -/
theorem equip (hm : Mirrors T s r h) (hplain : (h.build kind payload).Plain)
    (inv : Invariant law (Juncture.rest.holding payload.allEdges) h)
    (hs : Spares (h.build kind payload) k)
    (inv' : Invariant law { Juncture.rest with building := [h.nodes.size] } k)
    (hedges : ∀ n ∈ payload.edges, r.Reach n) (base : Memory.Address) {base' : Memory.Address}
    (hbase : k.memory.admit? (k.kind h.nodes.size).size = some base') :
    Mirrors r.secured (s + 1) ((r.build kind payload).equip r.nodes.size base)
      (k.equip h.nodes.size base') := by
  have hsize : k.nodes.size = h.nodes.size + 1 := hs.size.trans (Array.size_push _)
  have hsizes : (k.equip h.nodes.size base').nodes.size = h.nodes.size + 1 :=
    (Heap.size_nodes_modifyNode _ _ _).trans hsize
  have hsizer : ((r.build kind payload).equip r.nodes.size base).nodes.size = r.nodes.size + 1 :=
    (Heap.size_nodes_modifyNode _ _ _).trans (Array.size_push _)
  have hequipped : Invariant law .rest (k.equip h.nodes.size base') :=
    Invariant.equip (w := .rest) inv' List.not_mem_nil hbase
  -- The collections since have left roots, handles and kinds alone. That they have spared what is
  -- secured is needed for `attached` and `payload`.
  refine
    { here := by rw [hsizer, hm.here]
      there := by rw [hsizes, hm.there]
      kind := ?kind
      roots := hs.roots.trans hm.roots
      handles := hs.handles.trans hm.handles
      dying := inv'.dying.trans (inv.dying.symm.trans hm.dying)
      attached := fun n hn hlt => ?attached
      payload := fun n hn => ?payload
      within := hm.within_secured
      closed := fun n hn p hp => hm.closed_secured hedges base hn hp
      ordinary := hm.ordinary
      simple := fun n p hp => ?simple
      orderly := hequipped.orderly
      limit := ?limit
      inhibited := hm.inhibited }
  case kind =>
    funext n
    rw [Heap.kind_equip, Heap.kind_equip, hs.kind]
    unfold Heap.kind
    rw [Heap.getElem?_build, Heap.getElem?_build, hm.size]
    split_ifs
    · rfl
    · exact congrFun hm.kind n
  case attached =>
    have hnew : h.nodes.size < k.nodes.size := by omega
    rw [hsizes] at hlt
    unfold Heap.Attached Heap.isDetached
    rw [Heap.isAllocated_equip base' hnew, Heap.status_equip base' hnew]
    split_ifs with hne
    · exact ⟨rfl, by simp⟩
    · exact hm.attached_of_secured inv hs hn (Nat.lt_of_le_of_ne (Nat.le_of_lt_succ hlt) hne)
  case payload =>
    rw [hm.payload?_equip_build, Heap.payload?_equip]
    exact hm.payload?_of_secured inv hs hn
  case simple =>
    rw [Heap.payload?_equip] at hp
    exact hplain.simple n p (hs.fewer n p hp)
  case limit =>
    show ((k.memory.push base' _).setMark _).store.limit = none
    rw [Memory.Allocator.limit_setMark, Memory.Allocator.limit_push, hs.limit]
    exact hm.limit

end Mirrors

namespace Mutator

variable {run : Runner} {name : HandleName} {S : Unit → Heap → Heap → Prop}

/-- A node allocated in both heaps, in the second after the collections that are due. -/
theorem tracks_allocateNode {kind : Kind} {payload : Payload} {fuel : Nat} (hidle : run.Idle)
    (hm : Mirrors T s r h) (htidy : law.tidy = true) (hhook : payload.hook = none)
    (hborrowed : payload.borrowed = false) (hedges : ∀ n ∈ payload.edges, r.Reach n)
    (inv : Invariant law (Juncture.rest.holding payload.allEdges) h)
    (hfuel : 2 * (h.nodes.size + 1) < fuel) :
    Tracks (· = .overflow) (Collector.allocate run fuel kind payload) r h fun n r' h' =>
      Mirrors r.secured (s + 1) r' h' ∧ n ∈ r.secured ∧ Invariant law .rest h' ∧
        h'.Referable .rest n := by
  intro n r' hok
  obtain ⟨rfl, haligned, base, rfl⟩ := (allocate_inhibited hm.inhibited).of_ok hok
  refine (allocate_spares hidle (hm.plain inv) htidy hhook hborrowed haligned inv hfuel).imp ?_
  rintro _ _ ⟨rfl, k, base', hs, inv', hbase, rfl⟩
  have hplain : (h.build kind payload).Plain := (hm.plain inv).build inv kind hhook hborrowed
  have hequipped : Invariant law .rest (k.equip h.nodes.size base') :=
    Invariant.equip (w := .rest) inv' List.not_mem_nil hbase
  have hlisted := Invariant.mem_liveList_equip (w := .rest) inv' base'
  refine ⟨hm.size, hm.equip hplain inv hs inv' hedges base hbase, ?_, hequipped, ?_⟩
  · exact fun hlt => absurd hlt (Nat.lt_irrefl _)
  · rw [← hm.size]
    exact hequipped.referable_of_mem_toList hlisted

theorem tracks_requireForm {form : AllocForm} (hm : Mirrors T s r h) (hS : S () r h) :
    Tracks E (requireForm form) r h S := by
  cases form with
  | bare => exact tracks_pure hS
  | root name => exact tracks_requireUnused hm hS
  | edge name => exact tracks_requireUnused hm hS
  | stackRoot name => exact .bind (tracks_requireNoDestructor hm (tracks_requireUnused hm hS))

/-- What is required of each node of a list is required of all. -/
theorem tracks_forM_require {check : NodeId → Act PUnit} {ns : List NodeId}
    (hcheck : ∀ n ∈ ns, ∀ P : PUnit → Heap → Heap → Prop, P () r h → Tracks E (check n) r h P)
    (hS : S () r h) : Tracks E (ns.forM check) r h S := by
  induction ns with
  | nil => exact tracks_pure hS
  | cons n ns ih =>
    refine .bind (hcheck n List.mem_cons_self _ ?_)
    exact ih fun m hm => hcheck m (List.mem_cons_of_mem n hm)

theorem tracks_requireKids {kind : Kind} {kids : List NodeId} (hm : Mirrors T s r h)
    (hkids : ∀ n ∈ kids, n ∈ T) (hS : S () r h) : Tracks E (requireKids kind kids) r h S := by
  unfold requireKids
  refine .bind
    (tracks_forM_require (fun n hn P hP => tracks_requireReferable hm (hkids n hn) hP) ?_)
  dsimp only
  split
  · exact .bind tracks_refuse
  · split
    · refine tracks_forM_require (fun n hn P hP => ?_) hS
      exact tracks_require (fun hr => by rw [hm.kind]; exact hr) fun _ => hP
    · exact tracks_pure hS

/-- Counting edges changes nothing but counts, whether or not it can be done. -/
theorem forM_countEdge_tallied (holder : Kind) (kids : List NodeId) :
    Leads (kids.forM (countEdge holder)) h (fun _ => Tallied h) fun _ _ => True := by
  have hedge : ∀ n h, Leads (countEdge holder n) h (fun _ => Tallied h) fun _ _ => True := by
    intro n h
    unfold countEdge
    rw [leads_bind]
    refine (increment_tallied n).mono (fun _ h₁ ht₁ => ?_) fun _ _ _ => trivial
    split
    · rw [leads_bind]
      refine (increment_tallied n).mono (fun _ h₂ ht₂ => ?_) fun _ _ _ => trivial
      exact (decrement_tallied n).mono (fun _ h₃ ht₃ => (ht₁.trans ht₂).trans ht₃)
        fun _ _ _ => trivial
    · exact ht₁
  induction kids generalizing h with
  | nil => exact .refl h
  | cons n kids ih =>
    rw [leads_forM_cons]
    exact (hedge n h).imp fun _ h₁ ht₁ => ih.imp fun _ h₂ ht₂ => ht₁.trans ht₂

/-- Counting edges to nodes that can be referred to puts them in flight in both heaps. -/
theorem tracks_forM_countEdge {holder : Kind} {kids : List NodeId} (hm : Mirrors T s r h)
    (inv : Invariant law w h) (hkids : ∀ n ∈ kids, h.Referable w n) :
    Tracks E (kids.forM (countEdge holder)) r h fun _ r' h' =>
      Recounted r r' ∧ Recounted h h' ∧ Mirrors T s r' h' ∧ Invariant law (w.holding kids) h' := by
  refine .of_leads (R := Recounted r)
    (H := fun h' => Invariant law (w.holding kids) h' ∧ Tallied h h') ?_ ?_ ?_
  · exact (forM_countEdge_tallied holder kids).imp fun _ _ ht => ht.toRecounted
  · exact ((forM_countEdge_spec inv hkids).and (forM_countEdge_tallied holder kids)).mono
      (fun _ _ hpost => hpost) fun _ _ hf => hf.1.elim
  · exact fun r' h' hr hh => ⟨hr, hh.2.toRecounted, hm.recount hr hh.2, hh.1⟩

theorem tracks_keepAs {form : AllocForm} (hm : Mirrors T s r h) (hn : n ∈ T) :
    Tracks E (keepAs n form) r h fun _ => Mirrors T s := by
  cases form with
  | bare => exact tracks_pure hm
  | root name =>
    exact .bind ((tracks_newRoot hm hn).mono fun _ _ _ hm₁ => tracks_keep hm₁ rfl)
  | stackRoot name =>
    exact .bind ((tracks_newStackRoot hm hn).mono fun _ _ _ hm₁ => tracks_keep hm₁ rfl)
  | edge name =>
    exact .bind ((tracks_increment hm hn).mono fun _ _ _ hm₁ => tracks_keep hm₁ rfl)

/-- An allocation whose kids are reachable does in both heaps what it does in the one without
collections, unless the trigger does not fit in a word when it is retuned. What was reachable before
it and what is new is mirrored after it. -/
theorem tracks_allocate {fuel : Nat} {form : AllocForm} {kind : Kind} {kids : List NodeId}
    (hidle : run.Idle) (hm : Mirrors T s r h) (htidy : law.tidy = true)
    (inv : Invariant law .rest h) (hkids : ∀ n ∈ kids, r.Reach n)
    (hfuel : 2 * (h.nodes.size + 1) < fuel) :
    Tracks (· = .overflow) (allocate run fuel form kind kids none) r h fun _ r' h' =>
      Mirrors r.secured (s + 1) r' h' ∧ Invariant law .rest h' := by
  have hmirrored : ∀ n ∈ kids, n ∈ T := fun n hn => hm.mem_of_reach (hkids n hn)
  have hreferable : ∀ n ∈ kids, h.Referable .rest n := fun n hn =>
    ⟨(hm.reach_iff.2 (hkids n hn)).isAllocated inv, fun hd => by cases hd⟩
  have hedges : (placesFor kind.shape kids).filterMap id = kids := filterMap_placesFor _ _
  unfold allocate
  refine .bind (tracks_requireForm hm (.bind (tracks_requireKids hm hmirrored ?_)))
  split
  · exact .bind tracks_refuse
  · refine .bind ((tracks_forM_countEdge hm inv hreferable).mono ?_)
    rintro _ r₁ h₁ ⟨hr₁, hh₁, hm₁, inv₁⟩
    -- Counting the edges to the kids leaves what is reachable.
    have hreach : ∀ n, r.Reach n ↔ r₁.Reach n := fun n => by
      refine Heap.Reach.congr ?_ hr₁.payload? (by rw [hr₁.roots])
      exact Heap.rootNodes_congr hm.within.external hr₁.roots
    have hsecured : r₁.secured = r.secured := Heap.secured_congr hr₁.size_nodes hreach
    have hflight : Invariant law (Juncture.rest.holding (Payload.allEdges
        { places := placesFor kind.shape kids, hidden := [], tag := 0, borrowed := false,
          hook := none })) h₁ := by
      unfold Payload.allEdges Payload.edges
      rw [hedges, List.append_nil]
      exact inv₁
    refine .bind ((tracks_allocateNode hidle hm₁ htidy rfl rfl (fun n hn => ?_) hflight ?_).mono ?_)
    · unfold Payload.edges at hn
      rw [hedges] at hn
      exact (hreach n).1 (hkids n hn)
    · rw [hh₁.size_nodes]
      exact hfuel
    · rintro n r₂ h₂ ⟨hm₂, hn, inv₂, href⟩
      rw [hsecured] at hm₂ hn
      have hkept : Leads (keepAs n form) h₂ (fun _ => Invariant law .rest) fun _ _ => False :=
        keepAs_spec inv₂ href fun _ pins doomed hguard => by cases hguard
      refine .bind ?_
      refine (((tracks_keepAs (E := fun _ => True) hm₂ hn).and_leads hkept).imp_error
        fun e he => he.2.elim).mono ?_
      exact fun _ _ _ hpost => tracks_pure hpost

end Mutator

/-! ## Steps -/

/-- Whether a step allocates without a destructor, works on edges, roots and payloads, or works on
the stacks of roots. It then takes no weak reference, holds no payload, asks for no collection and
registers no root source. -/
def Step.isPlain : Step → Bool
  | .allocate _ _ _ hook => hook.isNone
  | .edge _ _ | .erasedEdge _ _ | .root _ _ | .stackRoot _ _ => true
  | .edgeFrom _ _ | .rootFrom _ _ | .stackRootFrom _ _ | .clone _ _ => true
  | .erase _ | .downcast _ _ _ | .isKind _ _ | .drop _ | .forget _ | .retarget _ _ => true
  | .read _ | .refcount _ | .same _ _ => true
  | .link _ _ _ _ | .unlink _ _ _ | .clear _ _ | .get _ => true
  | .protect _ | .unprotect _ | .reprotect _ _ | .protectedAt _ | .protectSize => true
  | .restoreProtect _ | .push _ | .pop | .top | .stackSize | .restoreStack _ => true
  | .snapshot _ | .restore _ => true
  | _ => false

/-- The nodes that a step names itself. -/
def Step.nodes : Step → List NodeId
  | .allocate _ _ kids _ => kids
  | .edge _ n | .erasedEdge _ n | .root _ n | .stackRoot _ n => [n]
  | .link n target _ _ => [n, target]
  | .unlink n _ _ | .clear n _ | .get n => [n]
  | .protect n | .reprotect n _ | .push n => [n]
  | _ => []

/-- The handles that a step uses. -/
def Step.names : Step → List HandleName
  | .edgeFrom _ origin | .rootFrom _ origin | .stackRootFrom _ origin => [origin]
  | .clone _ origin | .downcast _ origin _ => [origin]
  | .erase name | .isKind name _ | .drop name | .forget name => [name]
  | .read name | .refcount name => [name]
  | .retarget name target => [name, target]
  | .same a b => [a, b]
  | _ => []

/-- The nodes that a step names, directly or through a handle. -/
def Heap.named (h : Heap) (step : Step) : List NodeId :=
  step.nodes ++ step.names.filterMap h.target?

namespace Mutator

variable {run : Runner} {fuel : Nat} {step : Step} {reply : Reply}

/-- Only the count that is asked for may differ. -/
theorem refcount_leads {name : HandleName} {a : Nat} (hm : Mirrors T s r h)
    (hok : refcount name r = .ok a r') :
    Leads (refcount name) h (fun _ => Mirrors T s r') fun e _ => E e := by
  unfold refcount handle at hok ⊢
  simp only [leads_bind, leads_view, hm.handles]
  simp only [bind, EStateM.bind, view] at hok
  cases hx : r.handles.lookup name with
  | none =>
    rw [hx] at hok
    cases hok
  | some x =>
    rw [hx] at hok
    cases x <;> cases hok
    exact hm

/-- A step that allocates nothing and names only nodes that are mirrored does the same to both
heaps. -/
theorem perform_mirrors (hm : Mirrors T s r h) (hplain : step.isPlain = true)
    (hstep : ∀ form kind kids hook, step ≠ .allocate form kind kids hook)
    (hnamed : ∀ n ∈ r.named step, n ∈ T) (hok : perform run fuel step r = .ok reply r') :
    Leads (perform run fuel step) h (fun _ => Mirrors T s r') fun e _ => e.isUnderflow = true := by
  have hnode : ∀ n ∈ step.nodes, n ∈ T := fun n hn => hnamed n (List.mem_append_left _ hn)
  have hname : ∀ name ∈ step.names, ∀ n ∈ r.target? name, n ∈ T := fun name hmem n hn =>
    hnamed n (List.mem_append_right _ (List.mem_filterMap.2 ⟨name, hmem, hn⟩))
  -- Counts may differ, so a step that tells one gives another reply; every other step gives the
  -- same.
  by_cases hcount : ∃ name, step = .refcount name
  · obtain ⟨name, rfl⟩ := hcount
    unfold perform at hok ⊢
    rw [map_eq_pure_bind] at hok
    obtain ⟨a, k, hcount, hpure⟩ := bind_eq_ok.1 hok
    cases hpure
    rw [leads_map]
    exact refcount_leads hm hcount
  · suffices htracks : Tracks (·.isUnderflow = true) (perform run fuel step) r h fun _ =>
        Mirrors T s from (htracks reply r' hok).imp fun _ _ hpost => hpost.2
    cases step <;> unfold perform
    case allocate form kind kids hook => exact absurd rfl (hstep form kind kids hook)
    case refcount name => exact absurd ⟨name, rfl⟩ hcount
    case edge name n =>
      have hn := hnode n (by simp [Step.nodes])
      exact .map (tracks_referTo hm hn (tracks_takeEdge hm hn))
    case erasedEdge name n =>
      have hn := hnode n (by simp [Step.nodes])
      exact .map (tracks_referTo hm hn (tracks_takeErased hm hn))
    case root name n =>
      have hn := hnode n (by simp [Step.nodes])
      exact .map (tracks_referTo hm hn (tracks_takeRoot hm hn))
    case stackRoot name n =>
      have hn := hnode n (by simp [Step.nodes])
      refine .bind (tracks_requireNoDestructor hm (.map ?_))
      exact tracks_referTo hm hn (tracks_takeStackRoot hm hn)
    case edgeFrom name source =>
      exact .map (tracks_edgeFrom hm (hname source (by simp [Step.names])))
    case rootFrom name source =>
      exact .map (tracks_referToTarget hm (hname source (by simp [Step.names]))
        fun n hn => tracks_takeRoot hm hn)
    case stackRootFrom name source =>
      refine .bind (tracks_requireNoDestructor hm (.map ?_))
      exact tracks_referToTarget hm (hname source (by simp [Step.names]))
        fun n hn => tracks_takeStackRoot hm hn
    case clone name source => exact .map (tracks_copy hm (hname source (by simp [Step.names])))
    case erase => exact .map (tracks_eraseKind hm)
    case downcast name source kind =>
      exact .map (tracks_downcast hm (hname source (by simp [Step.names])))
    case isKind => exact .map (tracks_isKind hm)
    case drop => exact .bind ((tracks_dropNamed hm).mono fun _ _ _ hm₁ => tracks_pure hm₁)
    case forget => exact .bind ((tracks_forget hm).mono fun _ _ _ hm₁ => tracks_pure hm₁)
    case retarget name target =>
      refine .bind (.mono (tracks_retarget hm ?_) fun _ _ _ hm₁ => tracks_pure hm₁)
      exact hname target (by simp [Step.names])
    case read name => exact tracks_readNamed hm (hname name (by simp [Step.names]))
    case same => exact .map (tracks_isSame hm)
    case link n target hidden front =>
      have hn := hnode n (by simp [Step.nodes])
      have htarget := hnode target (by simp [Step.nodes])
      refine .bind (tracks_requireAllocated hm hn (.bind (tracks_requireReferable hm htarget ?_)))
      exact .bind ((tracks_link hm hn htarget).mono fun _ _ _ hm₁ => tracks_pure hm₁)
    case unlink n place hidden =>
      have hn := hnode n (by simp [Step.nodes])
      exact .bind (tracks_requireAllocated hm hn (.map (tracks_unlink hm hn)))
    case clear n hidden =>
      have hn := hnode n (by simp [Step.nodes])
      refine .bind (tracks_requireAllocated hm hn ?_)
      exact .bind ((tracks_clear hm hn).mono fun _ _ _ hm₁ => tracks_pure hm₁)
    case get n =>
      have hn := hnode n (by simp [Step.nodes])
      exact .bind (tracks_requireAllocated hm hn (tracks_look hm hn))
    case protect n => exact .map (tracks_protect hm (hnode n (by simp [Step.nodes])))
    case unprotect => exact .bind ((tracks_unprotect hm).mono fun _ _ _ hm₁ => tracks_pure hm₁)
    case reprotect n place =>
      have hn := hnode n (by simp [Step.nodes])
      exact .bind ((tracks_reprotect hm hn).mono fun _ _ _ hm₁ => tracks_pure hm₁)
    case protectedAt => exact .map (tracks_view (by rw [hm.roots]) hm)
    case protectSize => exact .map (tracks_view (by rw [hm.roots]) hm)
    case restoreProtect =>
      exact .bind ((tracks_restoreProtect hm).mono fun _ _ _ hm₁ => tracks_pure hm₁)
    case push n =>
      have hn := hnode n (by simp [Step.nodes])
      exact .bind ((tracks_push hm hn).mono fun _ _ _ hm₁ => tracks_pure hm₁)
    case pop => exact .map (tracks_pop hm)
    case top => exact .map (tracks_view (by rw [hm.roots]) hm)
    case stackSize => exact .map (tracks_view (by rw [hm.roots]) hm)
    case restoreStack =>
      exact .bind ((tracks_restoreStack hm).mono fun _ _ _ hm₁ => tracks_pure hm₁)
    case snapshot => exact .bind ((tracks_takeSnapshot hm).mono fun _ _ _ hm₁ => tracks_pure hm₁)
    case restore => exact .bind ((tracks_restore hm).mono fun _ _ _ hm₁ => tracks_pure hm₁)
    -- What is left are the steps that are not plain.
    all_goals exact absurd hplain Bool.false_ne_true

/-- Such a step returns in the second heap, and keeps the invariant. -/
theorem perform_returns (hm : Mirrors T s r h) (inv : Invariant .tidying .rest h)
    (hplain : step.isPlain = true)
    (hstep : ∀ form kind kids hook, step ≠ .allocate form kind kids hook)
    (hnamed : ∀ n ∈ r.named step, n ∈ T) (hok : perform run fuel step r = .ok reply r') :
    Returns (perform run fuel step) h fun _ h' =>
      Mirrors T s r' h' ∧ Invariant .tidying .rest h' := by
  -- The step runs no program, so that any runner may stand in for the one at hand.
  have hrunner : perform run fuel step =
      perform (runNested (.under .tidying) fuel 0) fuel step := by
    cases step
    case allocate form kind kids hook => exact absurd rfl (hstep form kind kids hook)
    all_goals first | exact absurd hplain Bool.false_ne_true | rfl
  have hallows : Law.tidying.allows h step = true := by
    cases step <;> first | exact absurd hplain Bool.false_ne_true | rfl
  have hkeeps := runNested_keeps (Terms.keep_under .tidying) fuel 0
  have hspec := perform_spec hkeeps fuel Juncture.ready_rest inv (.inr hallows)
  rw [← hrunner] at hspec
  refine ((perform_mirrors hm hplain hstep hnamed hok).and hspec).mono (fun _ _ hpost => hpost) ?_
  rintro e _ ⟨hunder, hnot, -⟩
  rw [hunder] at hnot
  cases hnot

end Mutator

end HybridHeap
