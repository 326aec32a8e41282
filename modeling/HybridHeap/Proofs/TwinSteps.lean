import HybridHeap.Proofs.Lifetimes
import HybridHeap.Proofs.TwinCollections

/-!
# The steps of twins

What a mutator does to twins. It names nodes by their numbers, so that nothing it does depends on
where the memory puts them, and the replies that it gets from twins agree.
-/

namespace HybridHeap.Mutator

open Collector Act

variable {P : Program → Prop} {n : NodeId} {name : HandleName} {run : Runner} {fuel : Nat}

/-! ## Handles -/

theorem blind_refuse {α : Type} : Blind P (refuse : Act α) := .throw _

theorem blind_require {p : Heap → Bool} (hp : Heap.Oblivious p) : Blind P (require p) :=
  .bind (.look hp) fun _ => .ite blind_refuse (.pure _)

theorem blind_requireReferable (n : NodeId) : Blind P (requireReferable n) := blind_require rfl

theorem blind_requireUnused (name : HandleName) : Blind P (requireUnused name) := blind_require rfl

theorem blind_handle (name : HandleName) : Blind P (handle name) := by
  refine .bind (.look rfl) fun found => ?_
  cases found with
  | none => exact blind_refuse
  | some x => exact .pure x

theorem blind_keep (name : HandleName) (x : Handle) : Blind P (keep name x) :=
  .update (.of_eq rfl rfl)

theorem blind_release (name : HandleName) : Blind P (release name) := .update (.of_eq rfl rfl)

theorem blind_lose (x : Handle) (count : Nat) : Blind P (lose x count) := .update (.of_eq rfl rfl)

theorem blind_newRoot (n : NodeId) : Blind P (newRoot n) :=
  .bind (blind_increment n) fun _ => .bind (.look rfl) fun _ =>
    .bind (.update (.of_eq rfl rfl)) fun _ => .pure _

theorem blind_dropRoot (n : NodeId) (slot : Nat) : Blind P (dropRoot n slot) :=
  .bind (.update (.of_eq rfl rfl)) fun _ => blind_decrement n

theorem blind_newStackRoot (n : NodeId) : Blind P (newStackRoot n) :=
  .bind (.look rfl) fun _ => .bind (.update (.of_eq rfl rfl)) fun _ => .pure _

theorem blind_dropStackRoot (n : NodeId) (index : Nat) : Blind P (dropStackRoot n index) :=
  .bind (.look rfl) fun _ => .ite
    (.ite (.bind (.fatal _) fun _ => .update (.of_eq rfl rfl)) (.update (.of_eq rfl rfl))) (.pure _)

theorem blind_requireRegistered (n : NodeId) (index : Nat) : Blind P (requireRegistered n index) :=
  .bind (.look rfl) fun _ => .ite (.bind (.look rfl) fun _ => .fatal _) (.pure _)

/-- A weak entry that is dropped takes its finalizer with it. -/
theorem blind_dropWeak (slot : Nat) : Blind P (dropWeak slot) := by
  have herase : Discreet P (·.modifyRoots fun r => { r with weak := r.weak.erase slot }) :=
    .of_runs rfl rfl fun h hr => { hr with
      finalizers := fun e he => hr.finalizers e (SlotTable.mem_of_mem_toList_erase he) }
  exact .bind (.look rfl) fun _ => .bind (.update (.of_eq rfl rfl)) fun _ =>
    .bind (.update herase) fun _ => blind_releaseAll _

theorem blind_dropHandle (x : Handle) : Blind P (dropHandle x) := by
  cases x with
  | edge n => exact blind_decrement n
  | erased n => exact blind_decrement n
  | root n slot => exact blind_dropRoot n slot
  | stackRoot n index => exact blind_dropStackRoot n index
  | weak slot => exact blind_dropWeak slot
  | inhibitor => exact .update (.of_eq rfl rfl)
  | snapshot s => exact .pure _
  | source s identifier => exact .pure _

/-! ## Taking references -/

theorem blind_refer {take : Act Handle} (htake : Blind P take) (name : HandleName) (n : NodeId) :
    Blind P (refer name n take) :=
  .bind (blind_require rfl) fun _ => .bind htake fun _ => .bind (blind_keep name _) fun _ => .pure _

theorem blind_takeEdge (n : NodeId) : Blind P (takeEdge n) :=
  .bind (blind_increment n) fun _ => .pure _

theorem blind_takeErased (n : NodeId) : Blind P (takeErased n) :=
  .bind (blind_increment n) fun _ => .pure _

theorem blind_takeRoot (n : NodeId) : Blind P (takeRoot n) :=
  .bind (blind_newRoot n) fun _ => .pure _

theorem blind_takeStackRoot (n : NodeId) : Blind P (takeStackRoot n) :=
  .bind (blind_newStackRoot n) fun _ => .pure _

theorem blind_referTo {take : NodeId → Act Handle} (htake : ∀ n, Blind P (take n))
    (name : HandleName) (n : NodeId) : Blind P (referTo name n take) :=
  .bind (blind_require rfl) fun _ => blind_refer (htake n) name n

theorem blind_referToTarget {take : NodeId → Act Handle} (htake : ∀ n, Blind P (take n))
    (name source : HandleName) : Blind P (referToTarget name source take) := by
  refine .bind (blind_handle source) fun x => ?_
  cases x with
  | edge n => exact blind_refer (htake n) name n
  | _ => exact blind_refuse

theorem blind_edgeFrom (name source : HandleName) : Blind P (edgeFrom name source) := by
  refine .bind (blind_require rfl) fun _ => .bind (blind_handle source) fun x => ?_
  cases x with
  | root n _ => exact blind_refer (blind_takeEdge n) name n
  | stackRoot n index =>
    exact .bind (blind_requireRegistered n index) fun _ => blind_refer (blind_takeEdge n) name n
  | _ => exact blind_refuse

theorem blind_copy (name source : HandleName) : Blind P (copy name source) := by
  refine .bind (blind_handle source) fun x => ?_
  cases x with
  | edge n => exact blind_refer (blind_takeEdge n) name n
  | erased n => exact blind_refer (blind_takeErased n) name n
  | root n _ => exact blind_refer (blind_takeRoot n) name n
  | _ => exact blind_refuse

theorem blind_eraseKind (name : HandleName) : Blind P (eraseKind name) := by
  refine .bind (blind_handle name) fun x => ?_
  cases x with
  | edge n =>
    exact .bind (blind_release name) fun _ => .bind (blind_keep name _) fun _ => .pure _
  | _ => exact blind_refuse

theorem blind_downcast (name source : HandleName) (kind : Kind) :
    Blind P (downcast name source kind) := by
  refine .bind (blind_require rfl) fun _ => .bind (blind_handle source) fun x => ?_
  cases x with
  | erased n =>
    exact .bind (.look rfl) fun _ => .ite (.map (blind_refer (blind_takeEdge n) name n)) (.pure _)
  | _ => exact blind_refuse

theorem blind_isKind (name : HandleName) (kind : Kind) : Blind P (isKind name kind) := by
  refine .bind (blind_handle name) fun x => ?_
  cases x with
  | erased n => exact .look rfl
  | _ => exact blind_refuse

theorem blind_dropNamed (name : HandleName) : Blind P (dropNamed name) :=
  .bind (blind_handle name) fun x => .bind (blind_release name) fun _ => blind_dropHandle x

theorem blind_forget (name : HandleName) : Blind P (forget name) :=
  .bind (blind_handle name) fun x => .bind (blind_release name) fun _ => blind_lose x 1

theorem blind_retarget (name target : HandleName) : Blind P (retarget name target) := by
  refine .bind (blind_require rfl) fun _ => .bind (blind_handle name) fun x =>
    .bind (blind_handle target) fun y => ?_
  cases x with
  | stackRoot n index =>
    cases y with
    | edge m =>
      have hrest : Blind P (do
          requireRegistered n index
          Act.update (·.modifyRoots fun r => { r with stack := r.stack.setIfInBounds index m })
          release name
          keep name (.stackRoot m index)) :=
        .bind (blind_requireRegistered n index) fun _ => .bind (.update (.of_eq rfl rfl)) fun _ =>
          .bind (blind_release name) fun _ => blind_keep name _
      exact .bind (.look rfl) fun _ => .bind (.look rfl) fun _ =>
        .ite (.bind blind_refuse fun _ => hrest) hrest
    | _ => exact blind_refuse
  | _ => exact blind_refuse

theorem blind_refcount (name : HandleName) : Blind P (refcount name) := by
  refine .bind (blind_handle name) fun x => ?_
  cases x with
  | edge n => exact .look rfl
  | _ => exact blind_refuse

theorem blind_isSame (a b : HandleName) : Blind P (isSame a b) := by
  refine .bind (blind_handle a) fun x => .bind (blind_handle b) fun y => ?_
  cases x <;> cases y <;> first | exact .pure _ | exact blind_refuse

/-! ## Payloads -/

theorem blind_requireAttached (n : NodeId) : Blind P (requireAttached n) :=
  .bind (.look rfl) fun _ => .ite (.bind (.look rfl) fun _ => .fatal _) (.pure _)

theorem blind_borrow (n : NodeId) : Blind P (borrow n) := by
  refine .bind (.look rfl) fun found => ?_
  cases found with
  | none => exact blind_refuse
  | some p => exact .ite (.throw _) (.pure p)

/-- No payload gets another destructor. -/
theorem blind_change {f : Payload → Payload} (hf : ∀ p, (f p).hook = p.hook) :
    Blind P (change n f) := .update (.modifyPayload hf)

theorem blind_look (n : NodeId) : Blind P (look n) :=
  .bind (blind_requireAttached n) fun _ => .bind (blind_borrow n) fun _ => .pure _

theorem blind_readNamed (name : HandleName) : Blind P (readNamed name) := by
  refine .bind (blind_handle name) fun x => ?_
  cases x with
  | edge n => exact blind_look n
  | root n _ => exact blind_look n
  | stackRoot n index =>
    exact .bind (blind_requireRegistered n index) fun _ => blind_look n
  | _ => exact blind_refuse

theorem blind_countEdge (holder : Kind) (n : NodeId) : Blind P (countEdge holder n) :=
  .bind (blind_increment n) fun _ =>
    .ite (.bind (blind_increment n) fun _ => blind_decrement n) (.pure _)

theorem blind_store (n target : NodeId) (hidden front : Bool) :
    Blind P (store n target hidden front) := by
  refine .bind (.look rfl) fun kind => ?_
  split
  · -- A link takes a typed edge from the erased one before it looks at its cell.
    have hrest : Blind P (do
        increment target
        let p ← onFailure (borrow n) (decrement target)
        change n fun p => { p with places := [some target] }
        releaseAll p.edges
        decrement target) :=
      .bind (blind_increment target) fun _ =>
        .bind (.onFailure (blind_borrow n) (blind_decrement target)) fun _ =>
          .bind (blind_change fun _ => rfl) fun _ => .bind (blind_releaseAll _) fun _ =>
            blind_decrement target
    exact .bind (.look rfl) fun _ => .ite (.bind blind_refuse fun _ => hrest) hrest
  · exact .bind (.discard (blind_borrow n)) fun _ =>
      .ite (blind_change fun _ => rfl) (blind_change fun _ => rfl)
  · exact .bind (.discard (blind_borrow n)) fun _ => blind_change fun _ => rfl
  · refine .bind (blind_borrow n) fun p => ?_
    cases fillFirst? target p.places with
    | none => exact blind_refuse
    | some places => exact blind_change fun _ => rfl
  · exact blind_refuse

theorem blind_link (n target : NodeId) (hidden front : Bool) :
    Blind P (link n target hidden front) :=
  .bind (blind_requireAttached n) fun _ => .bind (blind_increment target) fun _ =>
    .onFailure (blind_store n target hidden front) (blind_decrement target)

theorem blind_unlink (n : NodeId) (place : Nat) (hidden : Bool) :
    Blind P (unlink n place hidden) := by
  refine .bind (blind_requireAttached n) fun _ => .bind (.look rfl) fun kind => ?_
  split
  · refine .bind (blind_borrow n) fun p => ?_
    split_ifs
    · cases p.hidden[place]? with
      | none => exact blind_refuse
      | some m =>
        exact .bind (blind_change fun _ => rfl) fun _ => .bind (blind_decrement m) fun _ => .pure _
    · cases p.places[place]? with
      | none => exact blind_refuse
      | some m =>
        exact .bind (blind_change fun _ => rfl) fun _ => .bind (blind_releaseAll _) fun _ => .pure _
  · rename_i count _
    have hrest : Blind P (do
        let m := ((← borrow n).places[place]?).join
        change n fun p => { p with places := p.places.set place none }
        releaseAll m.toList
        return m) :=
      .bind (blind_borrow n) fun _ => .bind (blind_change fun _ => rfl) fun _ =>
        .bind (blind_releaseAll _) fun _ => .pure _
    exact .ite hrest (.bind blind_refuse fun _ => hrest)
  · exact blind_refuse

theorem blind_clear (n : NodeId) (hidden : Bool) : Blind P (clear n hidden) := by
  refine .bind (blind_requireAttached n) fun _ => .bind (.look rfl) fun kind => ?_
  split
  · exact blind_refuse
  · exact .bind (blind_borrow n) fun p =>
      .ite (.bind (blind_change fun _ => rfl) fun _ => blind_releaseAll _)
        (.bind (blind_change fun _ => rfl) fun _ => blind_releaseAll _)
  · exact .bind (blind_borrow n) fun _ =>
      .bind (blind_change fun _ => rfl) fun _ => blind_releaseAll _
  · exact .bind (blind_borrow n) fun _ =>
      .bind (blind_change fun _ => rfl) fun _ => blind_releaseAll _
  · exact blind_refuse

/-- A hold does to twins what its body does. -/
theorem alike_holding {α β : Type} {R : α → β → Prop} {x : Act α} {y : Act β}
    (hxy : Alike P R x y) (n : NodeId) : Alike P R (holding n x) (holding n y) := by
  have hborrowed : ∀ borrowed, Blind P (change n fun p => { p with borrowed }) := fun _ =>
    blind_change fun _ => rfl
  have hbody : Alike P R
      (do
        discard <| borrow n
        change n fun p => { p with borrowed := true }
        ensuring x (change n fun p => { p with borrowed := false }))
      (do
        discard <| borrow n
        change n fun p => { p with borrowed := true }
        ensuring y (change n fun p => { p with borrowed := false })) :=
    Alike.bind (blind_borrow n).discard fun _ _ _ => Alike.bind (hborrowed true) fun _ _ _ =>
      hxy.ensuring (hborrowed false)
  refine Alike.bind (blind_newRoot n) fun slot _ hslot => ?_
  cases hslot
  refine .ensuring (Alike.bind (blind_requireAttached n) fun _ _ _ =>
    Alike.bind (Blind.look (f := fun h => (h.kind n).cellName?) rfl) fun cell _ hcell => ?_)
    (blind_dropRoot n slot)
  cases hcell
  dsimp only
  split_ifs
  · exact Alike.bind blind_refuse fun _ _ _ => hbody
  · exact hbody

/-! ## Allocating -/

theorem blind_requireKids (kind : Kind) (kids : List NodeId) : Blind P (requireKids kind kids) := by
  have hlink : ∀ kid, Blind P (require fun h => h.kind kid == .link) := fun _ => blind_require rfl
  have hlinks : Blind P (do
      if kind = .link then kids.forM fun kid => require fun h => h.kind kid == .link) :=
    .ite (.forM hlink kids) (.pure _)
  exact .bind (.forM blind_requireReferable kids) fun _ =>
    .ite (.bind blind_refuse fun _ => hlinks) hlinks

theorem blind_requireForm (form : AllocForm) : Blind P (requireForm form) := by
  cases form with
  | bare => exact .pure _
  | root h => exact blind_require rfl
  | stackRoot h => exact .bind (blind_require rfl) fun _ => blind_require rfl
  | edge h => exact blind_require rfl

theorem blind_keepAs (n : NodeId) (form : AllocForm) : Blind P (keepAs n form) := by
  cases form with
  | bare => exact .pure _
  | root h => exact .bind (blind_newRoot n) fun _ => blind_keep h _
  | stackRoot h => exact .bind (blind_newStackRoot n) fun _ => blind_keep h _
  | edge h => exact .bind (blind_increment n) fun _ => blind_keep h _

theorem blind_allocate (hrun : run.Faithful P) (fuel : Nat) (form : AllocForm) (kind : Kind)
    (kids : List NodeId) {hook : Option Program}
    (hhook : ∀ program, hook = some program → P program) :
    Blind P (allocate run fuel form kind kids hook) := by
  have hrest : Blind P (do
      kids.forM (countEdge kind)
      let n ← Collector.allocate run fuel kind
        { places := placesFor kind.shape kids, hidden := [], tag := 0, borrowed := false, hook }
      keepAs n form
      return n) :=
    .bind (.forM (blind_countEdge kind) kids) fun _ =>
      .bind (Collector.blind_allocate hrun fuel kind hhook) fun n =>
        .bind (blind_keepAs n form) fun _ => .pure _
  exact .bind (blind_requireForm form) fun _ => .bind (blind_requireKids kind kids) fun _ =>
    .ite (.bind blind_refuse fun _ => hrest) hrest

/-! ## Stacks of roots and root sources -/

theorem blind_requireStackable (n : NodeId) : Blind P (requireStackable n) :=
  .bind (blind_require rfl) fun _ => blind_require rfl

theorem blind_modifyProtect (f : Array NodeId → Array NodeId) : Blind P (modifyProtect f) :=
  .update (.of_eq rfl rfl)

theorem blind_modifyNodeStack (f : Array NodeId → Array NodeId) : Blind P (modifyNodeStack f) :=
  .update (.of_eq rfl rfl)

theorem blind_protect (n : NodeId) : Blind P (protect n) :=
  .bind (blind_requireStackable n) fun _ => .bind (.look rfl) fun _ =>
    .bind (blind_modifyProtect _) fun _ => .pure _

theorem blind_unprotect (count : Nat) : Blind P (unprotect count) :=
  .bind (.look rfl) fun _ =>
    .ite (.bind (.fatal _) fun _ => blind_modifyProtect _) (blind_modifyProtect _)

theorem blind_reprotect (n : NodeId) (place : Nat) : Blind P (reprotect n place) :=
  .bind (blind_requireStackable n) fun _ => .bind (.look rfl) fun _ =>
    .ite (.bind (.fatal _) fun _ => blind_modifyProtect _) (blind_modifyProtect _)

theorem blind_restoreProtect (size : Nat) : Blind P (restoreProtect size) :=
  .bind (.look rfl) fun _ =>
    .ite (.bind (.fatal _) fun _ => blind_modifyProtect _) (blind_modifyProtect _)

theorem blind_push (n : NodeId) : Blind P (push n) :=
  .bind (blind_requireStackable n) fun _ => blind_modifyNodeStack _

theorem blind_pop : Blind P pop :=
  .bind (.look rfl) fun _ => .bind (blind_modifyNodeStack _) fun _ => .pure _

theorem blind_restoreStack (size : Nat) : Blind P (restoreStack size) :=
  .bind (.look rfl) fun _ =>
    .ite (.bind (.fatal _) fun _ => blind_modifyNodeStack _) (blind_modifyNodeStack _)

theorem blind_takeSnapshot (name : HandleName) : Blind P (takeSnapshot name) :=
  .bind (blind_require rfl) fun _ => .bind (.look rfl) fun _ =>
    .bind (blind_keep name _) fun _ => .pure _

theorem blind_restore (name : HandleName) : Blind P (restore name) := by
  refine .bind (blind_handle name) fun x => ?_
  cases x with
  | snapshot s =>
    exact .bind (.look rfl) fun _ =>
      .ite (.bind (.fatal _) fun _ => .update (.of_eq rfl rfl)) (.update (.of_eq rfl rfl))
  | _ => exact blind_refuse

theorem blind_newSource (name : HandleName) (nodes : List NodeId) (pins : Bool) :
    Blind P (newSource name nodes pins) := by
  have hregister : ∀ s, Blind P (registerSource s) := fun s =>
    .bind (.look rfl) fun _ => .bind (.update (.of_eq rfl rfl)) fun _ => .pure _
  exact .bind (blind_require rfl) fun _ => .bind (.look rfl) fun _ =>
    .bind (.update (.of_eq rfl rfl)) fun _ => .bind (hregister _) fun _ =>
      .bind (blind_keep name _) fun _ => .pure _

theorem blind_designate (name : HandleName) (nodes : List NodeId) :
    Blind P (designate name nodes) := by
  refine .bind (blind_handle name) fun x => ?_
  cases x with
  | source s _ => exact .update (.of_eq rfl rfl)
  | _ => exact blind_refuse

theorem blind_unregister (name : HandleName) : Blind P (unregister name) := by
  have hunregister : ∀ identifier, Blind P (unregisterSource identifier) := fun _ =>
    .bind (.look rfl) fun _ => .bind (.update (.of_eq rfl rfl)) fun _ => .pure _
  refine .bind (blind_handle name) fun x => ?_
  cases x with
  | source _ identifier => exact .map (hunregister identifier)
  | _ => exact blind_refuse

/-! ## Weak references -/

/-- A weak reference is made with a finalizer that may be run. -/
theorem blind_insertWeak (key : NodeId) (value : Option NodeId)
    {finalizer : Option (HandleName × Program)} (hP : ∀ f, finalizer = some f → P f.2) :
    Blind P (insertWeak key value finalizer) := by
  have hstatus : Discreet P fun h => h.setStatus key ((h.status key).insert .weakKey) :=
    .setStatus rfl
  have hinsert : ∀ number, Discreet P (·.modifyRoots fun r => { r with
      weak := r.weak.insert
        { key := some key, value
          finalizer := finalizer.map fun f => { number, name := f.1, program := f.2 } } }) :=
    fun number =>
      .of_runs rfl rfl fun h hr => { hr with
        finalizers := fun e he f hf => by
          rcases SlotTable.mem_of_mem_toList_insert he with rfl | hold
          · obtain ⟨g, hg, rfl⟩ := Option.map_eq_some_iff.1 hf
            exact hP g hg
          · exact hr.finalizers e hold f hf }
  exact .bind (.update hstatus) fun _ => .bind (.look rfl) fun _ => .bind (.look rfl) fun number =>
    .bind (.look rfl) fun _ => .bind (.update (.of_eq rfl rfl)) fun _ =>
      .bind (.update (hinsert number)) fun _ => .pure _

theorem blind_newWeak (name : HandleName) (key : NodeId) (value : Option NodeId)
    {finalizer : Option Program} (hP : ∀ program, finalizer = some program → P program) :
    Blind P (newWeak name key value finalizer) := by
  have hinsert : Blind P (insertWeak key value (finalizer.map fun program => (name, program))) :=
    blind_insertWeak key value fun f hf => by
      obtain ⟨program, hprogram, rfl⟩ := Option.map_eq_some_iff.1 hf
      exact hP program hprogram
  exact .bind (blind_require rfl) fun _ => .bind (blind_require rfl) fun _ =>
    .bind (.forM blind_requireReferable _) fun _ => .bind (.forM blind_increment _) fun _ =>
      .bind hinsert fun _ => blind_keep name _

theorem blind_weakSlot (name : HandleName) : Blind P (weakSlot name) := by
  refine .bind (blind_handle name) fun x => ?_
  cases x with
  | weak slot => exact .pure _
  | _ => exact blind_refuse

theorem blind_weakNode (name : HandleName) : Blind P (weakNode name) :=
  .bind (blind_weakSlot name) fun _ => .look rfl

theorem blind_weakEdge {part : Nat → Heap → Option NodeId}
    (hpart : ∀ slot, Heap.Oblivious (part slot))
    (name : HandleName) (kind : Kind) (keepName : Option HandleName) :
    Blind P (weakEdge part name kind keepName) := by
  have hfind : ∀ slot, Blind P (Act.view fun h => (part slot h).filter fun n => h.kind n == kind) :=
    fun slot => .look <| funext fun h => funext fun q => funext fun m => funext fun es =>
      congrArg (Option.filter _) ((hpart slot).eq h q m es)
  refine .bind (blind_weakSlot name) fun slot => .bind (.forM blind_requireUnused _) fun _ =>
    .bind (hfind slot) fun found => ?_
  cases found with
  | none => exact .pure _
  | some n =>
    cases keepName with
    | none => exact .bind (blind_increment n) fun _ => .bind (blind_decrement n) fun _ => .pure _
    | some other =>
      exact .bind (blind_increment n) fun _ => .bind (blind_keep other _) fun _ => .pure _

/-! ## Looking at nodes and memory -/

theorem blind_header (n : NodeId) : Blind P (header n) :=
  .bind (blind_require rfl) fun _ => .look rfl

theorem blind_markBit (n : NodeId) : Blind P (markBit n) :=
  .bind (blind_require rfl) fun _ => .look rfl

theorem blind_trace (n : NodeId) : Blind P (trace n) := by
  refine .bind (blind_require rfl) fun _ => .bind (.look rfl) fun traced => ?_
  have hlog : Blind P (Act.update (logTrace · traced.2)) := by
    cases traced.2 with
    | none => exact .update (.of_eq rfl rfl)
    | some message => exact .log _ _
  exact .bind hlog fun _ => .pure _

theorem blind_queueNode (n : NodeId) : Blind P (queueNode n) :=
  .bind (blind_require rfl) fun _ => blind_makeMoribund n

theorem blind_dropTwice (n : NodeId) : Blind P (dropTwice n) :=
  .bind (blind_require rfl) fun _ => .bind (blind_require rfl) fun _ =>
    .bind (blind_increment n) fun _ => .bind (blind_decrement n) fun _ => blind_decrement n

theorem blind_leak (n : NodeId) (count : Nat) : Blind P (leak n count) := by
  have hmany : Discreet P fun h =>
      h.setStatus n (Nat.repeat (fun s => s.increment.1) (count - 1) (h.status n)) :=
    .setStatus (s := fun h => Nat.repeat (fun s => s.increment.1) (count - 1) (h.status n)) rfl
  have hcount : Blind P (Act.view fun h => (h.status n).count) := .look rfl
  have hrest : Blind P (do
      if count ≠ 0 then
        increment n
        Act.update fun h =>
          h.setStatus n (Nat.repeat (fun s => s.increment.1) (count - 1) (h.status n))
        lose (.edge n) count
      Act.view fun h => (h.status n).count) :=
    .ite (.bind (blind_increment n) fun _ => .bind (.update hmany) fun _ =>
      .bind (blind_lose _ count) fun _ => hcount) hcount
  exact .bind (blind_require rfl) fun _ => .ite (.bind blind_refuse fun _ => hrest) hrest

theorem blind_showPointer (n : NodeId) : Blind P (showPointer n) :=
  .bind (blind_require rfl) fun _ => .look rfl

/-- Whether an address looks like a node may not be the same for twins, but in both it makes sense
to ask or in neither. -/
theorem alike_looks (n : NodeId) (offset : Int) :
    Alike P (fun _ _ => True) (looks n offset) (looks n offset) := by
  have haddress : ∀ h : Heap, (addressOf? h n offset).isSome =
      (h.nodes[n]?.any fun node => node.stage ≠ .unborn ∧
        ¬ (offset < -(reach : Int) ∨ (node.kind.size + reach : Int) ≤ offset)) := by
    intro h
    unfold addressOf? Heap.node?
    cases h.nodes[n]? with
    | none => rfl
    | some node =>
      simp only [Option.bind_eq_bind, Option.bind_some, Option.any_some]
      split_ifs <;> simp_all
  have hlook : Alike P (fun a b => a.isSome = b.isSome) (Act.view (addressOf? · n offset))
      (Act.view (addressOf? · n offset)) :=
    .view (fun _ _ => ⟨_, rfl⟩) (fun _ _ => ⟨_, rfl⟩) fun h k ht => by
      rw [haddress, haddress]
      exact (ht.oblivious (fun h => h.nodes[n]?.any _) rfl).symm
  refine hlook.bind fun a b hab => ?_
  cases a with
  | none =>
    cases b with
    | none => exact .throw _
    | some _ => cases hab
  | some a =>
    cases b with
    | none => cases hab
    | some b =>
      exact .view (fun _ _ => ⟨none, trivial⟩) (fun _ _ => ⟨none, trivial⟩) fun _ _ _ => trivial

/-- A byte that is written outside of storage that is out leads astray. Where that is refused for
both twins, as it is without a quarantine, nothing happens. -/
theorem blind_poke (n : NodeId) (offset : Int) (byte : UInt8) : Blind P (poke n offset byte) := by
  have hpokes : ∀ h : Heap, isPokeable h n offset = true → Returns (poke n offset byte) h
      fun _ h' => ∃ memory, h' = { h with memory, chronicle := h.chronicle.trespass } := by
    intro h hpokeable
    unfold poke require Returns
    simp only [leads_bind, leads_view, hpokeable]
    exact ⟨_, rfl⟩
  have hrefuses : ∀ h : Heap, isPokeable h n offset = false →
      poke n offset byte h = .error .refused h := by
    intro h hpokeable
    unfold poke require
    simp only [bind, EStateM.bind, view, hpokeable]
    rfl
  have hkept : ∀ {h : Heap} {memory : Memory.Allocator}, h.Runs P →
      Kept P h { h with memory, chronicle := h.chronicle.trespass } := fun hr =>
    ⟨{ hr with }, Nat.le_refl _, Nat.le_succ _⟩
  have hsteady : Steady P (fun a => ∃ b, a = b) (poke n offset byte) := by
    intro h hr
    cases hpokeable : isPokeable h n offset with
    | true =>
      refine (hpokes h hpokeable).leads ?_
      rintro a _ ⟨memory, rfl⟩
      exact ⟨⟨a, rfl⟩, hkept hr⟩
    | false =>
      unfold Leads
      rw [hrefuses h hpokeable]
      exact .refl hr
  have hastray : ∀ h : Heap, isPokeable h n offset = true →
      0 < (after (poke n offset byte h)).chronicle.trespasses := by
    intro h hpokeable
    obtain ⟨a, _, heq, memory, rfl⟩ := returns_iff.1 (hpokes h hpokeable)
    rw [heq]
    exact Nat.succ_pos _
  -- A byte that is written leads that twin astray, and otherwise both refuse.
  refine ⟨hsteady, fun k hr => (hsteady k hr).imp fun a _ hk => ⟨⟨a, rfl⟩, hk.2⟩, fun h k ht => ?_⟩
  cases hh : isPokeable h n offset with
  | true => exact .astray (.inr (.inl (hastray h hh)))
  | false =>
    cases hk : isPokeable k n offset with
    | true => exact .astray (.inr (.inr (hastray k hk)))
    | false =>
      rw [hrefuses h hh, hrefuses k hk]
      exact .error ht

/-! ## Steps -/

theorem blind_silently {x : Act Unit} (hx : Blind P x) : Blind P (silently x) :=
  .bind hx fun _ => .pure _

/-- A step that comes with programs of which `P` holds leads from twins to twins, with replies that
agree. -/
theorem alike_perform (hrun : run.Faithful P) (fuel : Nat) {step : Step}
    (hprograms : ∀ inner ∈ step.programs, P inner) :
    Alike P (Reply.Agree P step) (perform run fuel step) (perform run fuel step) := by
  -- One rule for each step. Replies may differ where they show the memory, as which bytes look like a
  -- node or what the allocator tells of itself, and where they show how much is held back.
  cases step with
  | allocate form kind kids hook =>
    have hhook : ∀ program, hook = some program → P program := fun program hp =>
      hprograms program (Option.mem_toList.2 hp)
    exact .reply (.map (blind_allocate hrun fuel form kind kids hhook))
  | edge h n => exact .reply (.map (blind_referTo blind_takeEdge h n))
  | erasedEdge h n => exact .reply (.map (blind_referTo blind_takeErased h n))
  | root h n => exact .reply (.map (blind_referTo blind_takeRoot h n))
  | stackRoot h n =>
    exact .reply (.bind (blind_require rfl) fun _ => .map (blind_referTo blind_takeStackRoot h n))
  | edgeFrom h source => exact .reply (.map (blind_edgeFrom h source))
  | rootFrom h source => exact .reply (.map (blind_referToTarget blind_takeRoot h source))
  | stackRootFrom h source =>
    exact .reply (.bind (blind_require rfl) fun _ =>
      .map (blind_referToTarget blind_takeStackRoot h source))
  | clone h source => exact .reply (.map (blind_copy h source))
  | erase h => exact .reply (.map (blind_eraseKind h))
  | downcast h source kind => exact .reply (.map (blind_downcast h source kind))
  | isKind h kind => exact .reply (.map (blind_isKind h kind))
  | drop h => exact .reply (blind_silently (blind_dropNamed h))
  | forget h => exact .reply (blind_silently (blind_forget h))
  | retarget h target => exact .reply (blind_silently (blind_retarget h target))
  | read h => exact .reply (blind_readNamed h)
  | refcount h => exact .reply (.map (blind_refcount h))
  | same a b => exact .reply (.map (blind_isSame a b))
  | link n target hidden front =>
    exact .reply (.bind (blind_require rfl) fun _ => .bind (blind_requireReferable target) fun _ =>
      blind_silently (blind_link n target hidden front))
  | unlink n place hidden =>
    exact .reply (.bind (blind_require rfl) fun _ => .map (blind_unlink n place hidden))
  | clear n hidden =>
    exact .reply (.bind (blind_require rfl) fun _ => blind_silently (blind_clear n hidden))
  | get n => exact .reply (.bind (blind_require rfl) fun _ => blind_look n)
  | hold n body =>
    have hbody := hrun body (hprograms body (List.mem_singleton_self _))
    exact Alike.bind (blind_require rfl) fun _ _ _ =>
      Alike.bind (blind_requireReferable n) fun _ _ _ =>
        (alike_holding hbody n).map fun _ _ has => .body has
  | header n => exact .reply (.map (blind_header n))
  | markBit n => exact .reply (.map (blind_markBit n))
  | trace n => exact .reply (.map (blind_trace n))
  | makeMoribund n => exact .reply (blind_silently (blind_queueNode n))
  | underflow n => exact .reply (blind_silently (blind_dropTwice n))
  | leak n count => exact .reply (.map (blind_leak n count))
  | showHandle h =>
    refine .reply (.bind (blind_handle h) fun x => .bind ?_ fun text => ?_)
    · cases x <;> exact .look rfl
    · cases text with
      | none => exact blind_refuse
      | some text => exact .pure _
  | showNode n => exact .reply (.bind (blind_showPointer n) fun _ => .pure _)
  | showHeap =>
    exact .reply (.map (.lookBytes (fun bytes h => Text.record "Collector"
      [("nodes", toString h.nodeCount), ("moribund", toString h.moribund.length),
       ("bytes", toString bytes), ("phase", h.phase.toText),
       ("roots", Text.quoted h.roots.toText), ("manager", h.managerText)]) fun _ => rfl))
  | lite => exact .reply (.map (blind_runLiteSweep hrun fuel))
  | full => exact .reply (.map (blind_forceFullCollection hrun fuel))
  | finalize => exact .reply (.map (blind_runPendingFinalizers hrun fuel))
  | inhibit h =>
    exact .reply (.bind (blind_requireUnused h) fun _ => .bind (.update (.of_eq rfl rfl)) fun _ =>
      blind_silently (blind_keep h .inhibitor))
  | isInhibited => exact .reply (.map (.look rfl))
  | isCollecting => exact .reply (.map (.look rfl))
  | phase => exact .reply (.map (.look rfl))
  | check =>
    refine .reply (.bind blind_checked fun r => ?_)
    cases r with
    | ok report => exact .pure _
    | error violation => exact .pure _
  | checkInvariants => exact .reply (.map blind_checkInvariants)
  | stats => exact .reply (.look rfl)
  | enable on => exact .reply (.bind (.update (.of_eq rfl rfl)) fun _ => .pure _)
  | verbose on => exact .reply (.bind (.update (.of_eq rfl rfl)) fun _ => .pure _)
  | setTrigger bytes =>
    exact .reply (.bind (.update (.of_eq rfl rfl)) fun _ => .map (.look rfl))
  | trigger => exact .reply (.map (.look rfl))
  | settings =>
    have hconfig : Alike P (fun c c' => ∃ quarantine, c' = { c with quarantine })
        (Act.view (·.config)) (Act.view (·.config)) :=
      .view (fun h _ => ⟨h.config, h.config.quarantine, rfl⟩)
        (fun k _ => ⟨k.config, k.config.quarantine, rfl⟩) fun h k ht => by
          obtain ⟨quarantine, memory, events, rfl⟩ := ht.same
          exact ⟨quarantine, rfl⟩
    refine hconfig.map ?_
    rintro c _ ⟨quarantine, rfl⟩
    exact .settings c quarantine
  | protect n => exact .reply (.map (blind_protect n))
  | unprotect count => exact .reply (blind_silently (blind_unprotect count))
  | reprotect n place => exact .reply (blind_silently (blind_reprotect n place))
  | protectedAt place => exact .reply (.map (.look rfl))
  | protectSize => exact .reply (.map (.look rfl))
  | restoreProtect size => exact .reply (blind_silently (blind_restoreProtect size))
  | push n => exact .reply (blind_silently (blind_push n))
  | pop => exact .reply (.map blind_pop)
  | top => exact .reply (.map (.look rfl))
  | stackSize => exact .reply (.map (.look rfl))
  | restoreStack size => exact .reply (blind_silently (blind_restoreStack size))
  | snapshot h => exact .reply (.bind (blind_takeSnapshot h) fun _ => .pure _)
  | restore h => exact .reply (blind_silently (blind_restore h))
  | source h nodes pins => exact .reply (.bind (blind_newSource h nodes pins) fun _ => .pure _)
  | designate h nodes => exact .reply (blind_silently (blind_designate h nodes))
  | unregister h => exact .reply (.map (blind_unregister h))
  | weak h key value finalizer =>
    have hfinalizer : ∀ program, finalizer = some program → P program := fun program hp =>
      hprograms program (Option.mem_toList.2 hp)
    exact .reply (blind_silently (blind_newWeak h key value hfinalizer))
  | weakNode h => exact .reply (.map (blind_weakNode h))
  | weakKey h kind keepName =>
    have hkey : ∀ slot, Heap.Oblivious (weakKey? slot) := fun _ => rfl
    exact .reply (.map (blind_weakEdge hkey h kind keepName))
  | weakValue h kind keepName =>
    have hvalue : ∀ slot, Heap.Oblivious (weakValue? slot) := fun _ => rfl
    exact .reply (.map (blind_weakEdge hvalue h kind keepName))
  | looks n offset => exact (alike_looks n offset).map fun m m' _ => .looks m m'
  | looksAt address =>
    have hlook : Alike P (fun _ _ => True) (Act.view (nodeAt? · address))
        (Act.view (nodeAt? · address)) :=
      .view (fun _ _ => ⟨none, trivial⟩) (fun _ _ => ⟨none, trivial⟩) fun _ _ _ => trivial
    exact hlook.map fun m m' _ => .looksAt m m'
  | corrupted =>
    have hclean : Blind P (Act.view (·.memory.corruptedBlocks)) :=
      Alike.view (fun _ _ => ⟨_, rfl⟩) (fun _ _ => ⟨_, rfl⟩) fun h k ht => by
        rw [ht.left.clean.corruptedBlocks, ht.right.clean.corruptedBlocks]
    exact .reply (.map hclean)
  | poke n offset byte => exact .reply (blind_silently (blind_poke n offset byte))
  | allocator =>
    have hview : Alike P (fun _ _ => True) (Act.view allocatorView) (Act.view allocatorView) :=
      .view (fun h _ => ⟨allocatorView h, trivial⟩) (fun k _ => ⟨allocatorView k, trivial⟩)
        fun _ _ _ => trivial
    exact hview.map fun view view' _ => .allocator view view'
  | senseless => exact .reply blind_refuse

/-! ## Programs -/

variable {terms : Terms}

/-- The reply of a step is its failure, unless that ends the run. -/
theorem replyOf_eq (terms : Terms) (x : Act Reply) :
    replyOf terms x = attempt x >>= fun
      | .ok reply => pure reply
      | .error e => if terms.ends e then throw e else pure (.failure e) := by
  funext h
  simp only [replyOf, bind, EStateM.bind, attempt]
  cases x h with
  | ok reply k => rfl
  | error e k =>
    dsimp only
    split_ifs <;> rfl

theorem alike_replyOf {step : Step} {x y : Act Reply} (terms : Terms)
    (hxy : Alike P (Reply.Agree P step) x y) :
    Alike P (Reply.Agree P step) (replyOf terms x) (replyOf terms y) := by
  rw [replyOf_eq, replyOf_eq]
  refine hxy.attempt.bind fun r s hrs => ?_
  cases hrs with
  | ok hreply => exact .pure hreply
  | error e =>
    dsimp only
    split_ifs
    · exact .throw e
    · exact .pure (.same _)

/-- A step is answered in the same way by twins, which are twins again after it. Whether it may be
performed must not depend on the memory. -/
theorem alike_answer (hterms : ∀ step, Heap.Oblivious (terms.objection · step))
    (hrun : run.Faithful P) (fuel : Nat) {step : Step}
    (hprograms : ∀ inner ∈ step.programs, P inner) :
    Alike P (Answer.Agree P step) (answer terms run fuel step)
      (answer terms run fuel step) := by
  have hpermit : Blind P (permit terms step) := by
    refine .bind (.look (hterms step)) fun objection => ?_
    cases objection with
    | none => exact .pure _
    | some e => exact .throw e
  have houter : Alike P (Event.AllAgree P) (Act.view (·.events)) (Act.view (·.events)) :=
    .view (fun h _ => ⟨h.events, .refl _⟩) (fun k _ => ⟨k.events, .refl _⟩) fun _ _ ht => ht.events
  have hevents : ∀ {es es' : List Event}, Event.AllAgree P es es' →
      Alike P Eq (Act.update fun h => { h with events := es })
        (Act.update fun h => { h with events := es' }) := fun hes =>
    .update (fun _ hr => .setEvents hr _) (fun _ hr => .setEvents hr _)
      fun _ _ ht => ht.setEvents hes
  have hseen : Alike P (fun x y => x.1 = y.1 ∧ Event.AllAgree P x.2 y.2)
      (Act.view fun h => (h.summary, h.events.reverse))
      (Act.view fun h => (h.summary, h.events.reverse)) := by
    refine .view (fun h _ => ⟨_, rfl, .refl _⟩) (fun k _ => ⟨_, rfl, .refl _⟩) fun h k ht => ?_
    refine ⟨?_, ht.events.reverse⟩
    have hbytes := ht.bytes
    obtain ⟨quarantine, memory, events, rfl⟩ := ht.same
    show h.summary = (h.rebase quarantine memory events).summary
    unfold Heap.summary
    rw [hbytes]
    rfl
  refine Alike.bind hpermit fun _ _ _ => houter.bind fun es es' hes =>
    (hevents .nil).bind fun _ _ _ =>
      (alike_replyOf _ (alike_perform hrun fuel hprograms)).bind fun r s hrs =>
        hseen.bind fun x y hxy => (hevents hes).bind fun _ _ _ => ?_
  obtain ⟨summary, xs⟩ := x
  obtain ⟨_, ys⟩ := y
  obtain ⟨rfl, hxs⟩ := hxy
  exact .pure (.mk hrs hxs)

/-- The steps of a program are answered in the same way by twins. -/
theorem alike_mapM_answer (hterms : ∀ step, Heap.Oblivious (terms.objection · step))
    (hrun : run.Faithful P) (fuel : Nat) {program : Program}
    (hprograms : ∀ step ∈ program, ∀ inner ∈ step.programs, P inner) :
    Alike P (Program.Agree P program) (program.mapM (answer terms run fuel))
      (program.mapM (answer terms run fuel)) := by
  induction program with
  | nil => exact .pure .nil
  | cons step program ih =>
    rw [List.mapM_cons]
    have hstep : Alike P (Answer.Agree P step) (answer terms run fuel step)
        (answer terms run fuel step) :=
      alike_answer hterms hrun fuel (hprograms step List.mem_cons_self)
    have hrest := ih fun s hs => hprograms s (List.mem_cons_of_mem step hs)
    exact hstep.bind fun _ _ ha => hrest.bind fun _ _ has => .pure (.cons ha has)

/-- However deep programs nest, those that occur in a script do the same to twins. -/
theorem runNested_faithful (hterms : ∀ step, Heap.Oblivious (terms.objection · step))
    (script : Program) (fuel depth : Nat) :
    Runner.Faithful (Program.Occurs script) (runNested terms fuel depth) := by
  induction depth with
  | zero => exact fun _ _ => .throw _
  | succ depth ih =>
    intro program hprogram
    exact alike_mapM_answer hterms ih fuel fun step hstep inner hinner =>
      .inside hprogram hstep hinner

end HybridHeap.Mutator
