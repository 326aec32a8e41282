import HybridHeap.Proofs.Quiet

/-!
# What collecting leaves alone

Reclaiming nodes and dropping payloads takes nodes off the queue and puts nodes onto it, and it
detaches nodes. The other flags of every status word stay as they are, those of reclaimed nodes
included, and so does the cycle that marks are compared with: this neither marks nor unmarks, and
what has been referenced once stays flagged so. No finalizer is lost either: each stays with its
weak entry until the entry expires, and is put at the end of the queue then. Each operation that is
part of this keeps it if it returns, as long as destructors do nothing of their own.
-/

namespace HybridHeap

open Collector Act

variable {h h' k : Heap} {n : NodeId} {run : Runner}

/-- Nothing has changed about marks, nor about any flag but those of moribund and of detached
nodes. -/
structure FlagsKept (h h' : Heap) : Prop where
  cycle : h'.cycle = h.cycle
  flags : ∀ n f, f ≠ .moribund → f ≠ .detached → (h'.status n).contains f = (h.status n).contains f

/-- Of a quiet heap that is still quiet the flags are kept, the roots with the weak table, and the
finalizers in the queue. -/
def Undisturbed (h h' : Heap) : Prop :=
  h.Quiet → h'.Quiet ∧ FlagsKept h h' ∧ h'.roots = h.roots ∧ h'.pending = h.pending

/-- The finalizers that there are, in the queue and in the weak table. -/
def Heap.finalizers (h : Heap) : List Finalizer :=
  h.pending ++ h.roots.weak.toList.filterMap WeakEntry.finalizer

/-- Of a quiet heap that is still quiet the flags are kept, and every finalizer, the queue being
longer by some of those that were in the weak table. -/
def Settles (h h' : Heap) : Prop :=
  h.Quiet → h'.Quiet ∧ FlagsKept h h' ∧ h.pending <+: h'.pending ∧
    h'.finalizers.Perm h.finalizers

/-- A quiet heap is still quiet, and every finalizer is still there, the queue being longer by some
of those that were in the weak table. -/
def HandsOver (h h' : Heap) : Prop :=
  h.Quiet → h'.Quiet ∧ h.pending <+: h'.pending ∧ h'.finalizers.Perm h.finalizers

namespace FlagsKept

theorem refl (h : Heap) : FlagsKept h h := ⟨rfl, fun _ _ _ _ => rfl⟩

theorem trans (h₁ : FlagsKept h h') (h₂ : FlagsKept h' k) : FlagsKept h k :=
  ⟨h₂.cycle.trans h₁.cycle, fun n f hm hd => (h₂.flags n f hm hd).trans (h₁.flags n f hm hd)⟩

end FlagsKept

instance : IsPreorder Heap Undisturbed where
  refl := fun h hquiet => ⟨hquiet, .refl h, rfl, rfl⟩
  trans := fun _ _ _ h₁ h₂ hquiet => by
    obtain ⟨hquiet₁, hflags₁, hroots₁, hpending₁⟩ := h₁ hquiet
    obtain ⟨hquiet₂, hflags₂, hroots₂, hpending₂⟩ := h₂ hquiet₁
    exact ⟨hquiet₂, hflags₁.trans hflags₂, hroots₂.trans hroots₁, hpending₂.trans hpending₁⟩

instance : IsPreorder Heap Settles where
  refl := fun h hquiet => ⟨hquiet, .refl h, List.prefix_rfl, .refl _⟩
  trans := fun _ _ _ h₁ h₂ hquiet => by
    obtain ⟨hquiet₁, hflags₁, hprefix₁, hperm₁⟩ := h₁ hquiet
    obtain ⟨hquiet₂, hflags₂, hprefix₂, hperm₂⟩ := h₂ hquiet₁
    exact ⟨hquiet₂, hflags₁.trans hflags₂, hprefix₁.trans hprefix₂, hperm₂.trans hperm₁⟩

instance : IsPreorder Heap HandsOver where
  refl := fun h hquiet => ⟨hquiet, List.prefix_rfl, .refl _⟩
  trans := fun _ _ _ h₁ h₂ hquiet => by
    obtain ⟨hquiet₁, hprefix₁, hperm₁⟩ := h₁ hquiet
    obtain ⟨hquiet₂, hprefix₂, hperm₂⟩ := h₂ hquiet₁
    exact ⟨hquiet₂, hprefix₁.trans hprefix₂, hperm₂.trans hperm₁⟩

/-- What disturbs nothing settles everything. -/
theorem Undisturbed.settles (hu : Undisturbed h h') : Settles h h' := fun hquiet => by
  obtain ⟨hquiet', hflags, hroots, hpending⟩ := hu hquiet
  refine ⟨hquiet', hflags, hpending ▸ List.prefix_rfl, ?_⟩
  unfold Heap.finalizers
  rw [hroots, hpending]

/-- What settles everything hands the finalizers over. -/
theorem Settles.handsOver (hs : Settles h h') : HandsOver h h' := fun hquiet => by
  obtain ⟨hquiet', -, hprefix, hperm⟩ := hs hquiet
  exact ⟨hquiet', hprefix, hperm⟩

/-- So does what changes neither payloads nor the roots nor the queue of finalizers. -/
theorem HandsOver.of_eq (hpayload : h'.payload? = h.payload?) (hroots : h'.roots = h.roots)
    (hpending : h'.pending = h.pending) : HandsOver h h' := by
  intro hquiet
  refine ⟨fun n p hp => hquiet n p ?_, hpending ▸ List.prefix_rfl, ?_⟩
  · rw [← hpayload]
    exact hp
  · unfold Heap.finalizers
    rw [hroots, hpending]

/-- Two ways that leave the same roots have queued the same finalizers. -/
theorem HandsOver.perm (hk : HandsOver h h') (hl : HandsOver h k) (hquiet : h.Quiet)
    (hroots : k.roots = h'.roots) : ∃ new new', h'.pending = h.pending ++ new ∧
      k.pending = h.pending ++ new' ∧ new'.Perm new := by
  obtain ⟨-, ⟨new, hnew⟩, hperm⟩ := hk hquiet
  obtain ⟨-, ⟨new', hnew'⟩, hperm'⟩ := hl hquiet
  refine ⟨new, new', hnew.symm, hnew'.symm, ?_⟩
  have hall := hperm'.trans hperm.symm
  unfold Heap.finalizers at hall
  rwa [hroots, List.perm_append_right_iff, ← hnew, ← hnew', List.perm_append_left_iff] at hall

theorem HandsOver.of_nodes (hnodes : h'.nodes = h.nodes) (hroots : h'.roots = h.roots)
    (hpending : h'.pending = h.pending) : HandsOver h h' :=
  .of_eq (funext fun n => congrArg (·[n]?.bind Node.payload) hnodes) hroots hpending

namespace Undisturbed

/-- What changes no node and none of these disturbs nothing. -/
theorem of_nodes (hnodes : h'.nodes = h.nodes) (hcycle : h'.cycle = h.cycle)
    (hroots : h'.roots = h.roots) (hpending : h'.pending = h.pending) : Undisturbed h h' := by
  intro hquiet
  refine ⟨fun n p hp => hquiet n p ?_, ⟨hcycle, fun n f _ _ => ?_⟩, hroots, hpending⟩
  · unfold Heap.payload? at hp ⊢
    rw [← hnodes]
    exact hp
  · unfold Heap.status
    rw [hnodes]

/-- Setting the status of a node disturbs nothing if the status has the flags. -/
theorem setStatus {s : Status}
    (hs : ∀ f, f ≠ .moribund → f ≠ .detached → s.contains f = (h.status n).contains f) :
    Undisturbed h (h.setStatus n s) := by
  intro hquiet
  refine ⟨fun m p hp => hquiet m p ?_, ⟨rfl, fun m f hm hd => ?_⟩, rfl, rfl⟩
  · rw [← h.payload?_setStatus n m s]
    exact hp
  · by_cases hn : n < h.nodes.size
    · rw [Heap.status_setStatus hn]
      split_ifs with hmn
      · rw [hmn]
        exact hs f hm hd
      · rfl
    · rw [Heap.setStatus_of_le (Nat.not_lt.1 hn)]

/-- Dropping the payload of a node disturbs nothing. -/
theorem strip (h : Heap) (n : NodeId) : Undisturbed h (h.strip n) := fun hquiet =>
  ⟨(Remains.strip h n).quiet hquiet, ⟨rfl, fun m _ _ _ => by rw [h.status_strip n m]⟩, rfl, rfl⟩

/-- Nor does what happens to the storage of a node. -/
theorem setStage (h : Heap) (n : NodeId) (stage : Stage) :
    Undisturbed h (h.modifyNode n fun node => { node with stage }) := fun hquiet =>
  ⟨fun m p hp => hquiet m p ((Heap.payload?_modifyNode (by simp) h n m).symm.trans hp),
    ⟨rfl, fun m _ _ _ => by rw [Heap.status_modifyNode (by simp)]⟩, rfl, rfl⟩

end Undisturbed

/-- Nothing is to be shown of heaps that are not quiet. -/
theorem Act.OnReturn.of_quiet {α : Type} {x : Act α} {P : Heap → Prop}
    (hx : h.Quiet → OnReturn x h P) : OnReturn x h fun h' => h.Quiet → P h' := by
  by_cases hquiet : h.Quiet
  · exact Leads.imp (hx hquiet) fun _ _ hP _ => hP
  · exact (leads_of_const trivial).mono (fun _ _ _ hq => absurd hq hquiet) fun _ _ _ => trivial

theorem Act.OnReturn.settles {α : Type} {x : Act α} (hx : OnReturn x h (Undisturbed h)) :
    OnReturn x h (Settles h) :=
  Leads.imp hx fun _ _ => Undisturbed.settles

theorem Act.OnReturn.handsOver {α : Type} {x : Act α} (hx : OnReturn x h (Settles h)) :
    OnReturn x h (HandsOver h) :=
  Leads.imp hx fun _ _ => Settles.handsOver

namespace Collector

/-! ## Operations that disturb nothing -/

theorem undisturbed_unqueue (n : NodeId) : OnReturn (unqueue n) h (Undisturbed h) :=
  .bind (.view _) fun _ _ _ => .ite (.update (.of_nodes rfl rfl rfl rfl))
    (.bind (.view _) fun _ _ _ => .fatal _)

theorem undisturbed_decrement (n : NodeId) : OnReturn (decrement n) h (Undisturbed h) := by
  unfold decrement OnReturn
  rw [leads_bind, leads_view]
  cases hs : (h.status n).decrement? with
  | none => exact trivial
  | some counted =>
    have hflags := Undisturbed.setStatus (h := h) fun f hm _ =>
      Status.contains_of_decrement? hs hm
    exact OnReturn.bind (.update hflags) fun _ _ _ =>
      .ite (.update (.of_nodes rfl rfl rfl rfl)) (.pure _)

theorem undisturbed_releaseAll (ns : List NodeId) :
    OnReturn (releaseAll ns) h (Undisturbed h) := by
  induction ns generalizing h with
  | nil => exact .pure _
  | cons n ns ih => exact .ensuring (undisturbed_decrement n) fun _ => ih

theorem undisturbed_makeMoribund (n : NodeId) : OnReturn (makeMoribund n) h (Undisturbed h) := by
  unfold makeMoribund OnReturn
  rw [leads_bind, leads_view]
  refine OnReturn.ite (.bind (.update (.setStatus fun f hm _ => ?_)) fun _ _ _ =>
    .update (.of_nodes rfl rfl rfl rfl)) (.pure _)
  simp [Ne.symm hm]

theorem undisturbed_deallocate (n : NodeId) : OnReturn (deallocate n) h (Undisturbed h) := by
  refine .bind (.view _) fun _ _ _ => .bind (.view _) fun _ _ _ =>
    .bind (.update (.of_nodes rfl rfl rfl rfl)) fun _ h₁ _ => .bind (.update ?_) fun _ _ _ =>
    .bind (.view _) fun fault _ _ => ?_
  · exact trans_of (a := h₁) (b := h₁.modifyMemory _) Undisturbed (.of_nodes rfl rfl rfl rfl)
      (.setStage _ n .freed)
  match fault with
  | none =>
    exact .bind (.update (.of_nodes rfl rfl rfl rfl)) fun _ _ _ => .bind (.view _) fun _ _ _ =>
      .bind (.forM (fun _ _ => .update (.of_nodes rfl rfl rfl rfl)) _) fun _ _ _ =>
      .update (.of_nodes rfl rfl rfl rfl)
  | some .redzoneDamaged => exact .fatal _
  | some .overflow => exact .throw _
  | some .overdrawn => exact .bind (.update (.of_nodes rfl rfl rfl rfl)) fun _ _ _ => .throw _
  | some .unknownBlock => exact .update (.of_nodes rfl rfl rfl rfl)

section

variable (hidle : run.Idle)
include hidle

/-- Destructors that do nothing of their own add events at most. -/
theorem undisturbed_runDestructor (n : NodeId) :
    OnReturn (runDestructor run n) h (Undisturbed h) := by
  refine .of_quiet fun hquiet => .of_returns (runDestructor_quiet hidle hquiet n) ?_
  rintro _ _ ⟨events, rfl⟩
  exact Undisturbed.of_nodes rfl rfl rfl rfl hquiet

theorem undisturbed_dropPayload (n : NodeId) : OnReturn (dropPayload run n) h (Undisturbed h) :=
  .bind (.update (.of_nodes rfl rfl rfl rfl)) fun _ _ _ =>
    .bind (.onFailure (.ensuring (undisturbed_runDestructor hidle n) fun _ =>
      .bind (.view _) fun _ _ _ => .bind (.update (.strip _ n)) fun _ _ _ =>
        undisturbed_releaseAll _)) fun _ _ _ =>
    .update (.of_nodes rfl rfl rfl rfl)

/-- The status that is given need only have the flags that the node has now. -/
theorem undisturbed_detach {status : Status}
    (hs : ∀ f, f ≠ .moribund → f ≠ .detached → status.contains f = (h.status n).contains f) :
    OnReturn (detach run n status) h (Undisturbed h) := by
  refine .ite (.bind (.update (.setStatus fun f hm hd => ?_)) fun _ _ _ =>
    undisturbed_dropPayload hidle n) (.pure _)
  rw [Status.contains_insert, decide_eq_false (Ne.symm hd), Bool.or_false]
  exact hs f hm hd

theorem undisturbed_sweepLive (fuel detached : Nat) :
    OnReturn (sweepLive run fuel detached) h (Undisturbed h) := by
  induction fuel generalizing h detached with
  | zero => exact .throw _
  | succ fuel ih =>
    refine .bind (.view _) fun next _ _ => ?_
    cases next with
    | none => exact .pure _
    | some n =>
      refine .bind (.update (.of_nodes rfl rfl rfl rfl)) fun _ h₁ _ => ?_
      unfold OnReturn
      rw [leads_bind, leads_view]
      exact OnReturn.bind (undisturbed_detach hidle fun _ _ _ => rfl) fun _ _ _ =>
        .bind (.view _) fun _ _ _ => .ite (.bind (undisturbed_makeMoribund n) fun _ _ _ => ih _)
          (ih _)

end

/-! ## Operations by which weak entries expire -/

/-- Settling expired entries puts their finalizers at the end of the queue. -/
theorem settle_finalizers (dead : List Expired) :
    OnReturn (settle dead) h fun h' => h.Quiet → h'.Quiet ∧ FlagsKept h h' ∧ h'.roots = h.roots ∧
      h'.pending = h.pending ++ dead.filterMap Expired.finalizer := by
  induction dead generalizing h with
  | nil => exact fun hquiet => ⟨hquiet, .refl h, rfl, (List.append_nil _).symm⟩
  | cons e dead ih =>
    have hrelease : OnReturn
        (onFailure (e.value.toList.forM decrement) (releaseAll (dead.filterMap Expired.value))) h
        (Undisturbed h) := .onFailure (.forM (fun _ _ => undisturbed_decrement _) _)
    unfold settle OnReturn
    refine leads_bind.2 (Leads.imp hrelease fun _ h₁ hundisturbed => ?_)
    refine leads_bind.2 (leads_update.2 (leads_bind.2 (leads_update.2 ?_)))
    refine Leads.imp ih fun _ h' hrest hquiet => ?_
    obtain ⟨hquiet₁, hflags₁, hroots₁, hpending₁⟩ := hundisturbed hquiet
    obtain ⟨hquiet', hflags', hroots', hpending'⟩ := hrest hquiet₁
    refine ⟨hquiet', hflags₁.trans ⟨hflags'.cycle, hflags'.flags⟩, hroots'.trans hroots₁, ?_⟩
    calc h'.pending
      _ = h₁.pending ++ e.finalizer.toList ++ dead.filterMap Expired.finalizer := hpending'
      _ = h.pending ++ (e :: dead).filterMap Expired.finalizer := by
          rw [hpending₁, List.append_assoc]
          cases he : e.finalizer <;> simp [he]

/-- Entries that expire pass their finalizers on. -/
theorem settles_expireEntries (p : Nat → WeakEntry → Bool) :
    OnReturn (expireEntries p) h (Settles h) := by
  unfold expireEntries OnReturn
  rw [leads_bind, leads_view, leads_bind, leads_update]
  refine Leads.imp (settle_finalizers _) fun _ h' hsettled hquiet => ?_
  obtain ⟨hquiet', hflags, hroots, hpending⟩ := hsettled hquiet
  refine ⟨hquiet', ⟨hflags.cycle, hflags.flags⟩, hpending ▸ List.prefix_append _ _, ?_⟩
  have hfound : (expired p h.roots.weak).filterMap Expired.finalizer =
      (h.roots.weak.entries.filter fun x => p x.1 x.2).filterMap fun x => x.2.finalizer := by
    unfold expired
    rw [List.filterMap_map]
    rfl
  have hperm := perm_filterMap_expire p h.roots.weak (g := WeakEntry.finalizer) rfl
  unfold Heap.finalizers
  rw [hpending, hroots, hfound, List.append_assoc]
  exact hperm.append_left _

section

variable (hidle : run.Idle)
include hidle

/-- Dropping the payload of a node and giving its storage back disturbs nothing. -/
theorem undisturbed_finish {status : Status}
    (hs : ∀ f, f ≠ .moribund → f ≠ .detached → status.contains f = (h.status n).contains f) :
    OnReturn (do
      detach run n status
      Act.update fun h => { h with nodeCount := h.nodeCount - 1 }
      deallocate n) h (Undisturbed h) :=
  .bind (undisturbed_detach hidle hs) fun _ _ _ =>
    .bind (.update (.of_nodes rfl rfl rfl rfl)) fun _ _ _ => undisturbed_deallocate n

/-- So does what comes before, but for the entries that expire. -/
theorem settles_dismantle (n : NodeId) : OnReturn (dismantle run n) h (Settles h) := by
  refine .of_quiet fun hquiet => ?_
  unfold OnReturn dismantle
  rw [leads_bind, leads_view]
  -- The status was looked up before the entries expired, and the flags are still those.
  suffices hfinish : OnReturn (do
      if (h.status n).contains .weakKey then
        expireEntries fun _ e => e.key == some n
      detach run n (h.status n)
      Act.update fun h => { h with nodeCount := h.nodeCount - 1 }
      deallocate n) h (Settles h) from Leads.imp hfinish fun _ _ hsettles => hsettles hquiet
  refine .ite (.bind (settles_expireEntries _) fun _ h₁ hsettles => ?_) ?_
  · refine OnReturn.settles (undisturbed_finish hidle fun f hm hd => ?_)
    exact ((hsettles hquiet).2.1.flags n f hm hd).symm
  · exact OnReturn.settles (undisturbed_finish hidle fun _ _ _ => rfl)

theorem settles_destroy (n : NodeId) : OnReturn (destroy run n) h (Settles h) := by
  have hrest : ∀ h', OnReturn (do
      Act.update (·.modifyRings (·.unlink (.node n)))
      dismantle run n) h' (Settles h') := fun _ =>
    .bind (OnReturn.settles (.update (.of_nodes rfl rfl rfl rfl))) fun _ _ _ =>
      settles_dismantle hidle n
  rw [destroy_eq]
  refine .bind (.view _) fun _ _ _ => .ite (.bind (undisturbed_unqueue n).settles fun _ _ _ =>
    .bind (.update (Undisturbed.setStatus fun f hm _ => ?_).settles) fun _ h' _ => hrest h')
    (hrest _)
  simp [hm]

theorem settles_drain (fuel reclaimed : Nat) :
    OnReturn (drain run fuel reclaimed) h (Settles h) := by
  induction fuel generalizing h reclaimed with
  | zero => exact .throw _
  | succ fuel ih =>
    refine .bind (.view _) fun next _ _ => ?_
    cases next with
    | none => exact .pure _
    | some n =>
      refine .bind (OnReturn.settles (.update (.of_nodes rfl rfl rfl rfl))) fun _ _ _ =>
        .bind (.update (Undisturbed.setStatus fun f hm _ => ?_).settles) fun _ _ _ =>
        .bind (.view _) fun _ _ _ => .ite (.bind (settles_destroy hidle n) fun _ _ _ => ih _) (ih _)
      simp [hm]

end

/-! ## Whole collections -/

/-- Counting a reference up sets a flag, but no finalizer goes anywhere. -/
theorem handsOver_increment (n : NodeId) : OnReturn (increment n) h (HandsOver h) := by
  refine (increment_leads n).mono ?_ fun _ _ _ => trivial
  rintro _ _ rfl
  exact .of_eq (funext fun m => h.payload?_setStatus n m _) rfl rfl

section

variable (hidle : run.Idle)
include hidle

/-- A lite sweep hands the finalizers over. -/
theorem handsOver_liteSweep (fuel : Nat) : OnReturn (liteSweep run fuel) h (HandsOver h) := by
  refine .bind (.view _) fun _ _ _ => .ite (.pure _)
    (.bind (.update (.of_nodes rfl rfl rfl)) fun _ _ _ =>
      .ensuring ?_ fun _ => .update (.of_nodes rfl rfl rfl))
  exact .bind (.view _) fun _ _ _ =>
    .bind (.forM (fun n _ => handsOver_increment n) _) fun _ _ _ =>
    .bind (settles_drain hidle fuel 0).handsOver fun _ _ _ =>
    .bind (.forM (fun n _ => (undisturbed_decrement n).settles.handsOver) _) fun _ _ _ =>
    .bind (.update (.of_nodes rfl rfl rfl)) fun _ _ _ =>
    .bind (.update (.of_nodes rfl rfl rfl)) fun _ _ _ =>
    .bind (.update (.of_nodes rfl rfl rfl)) fun _ _ _ => .pure _

end

end Collector

end HybridHeap
