import HybridHeap.Proofs.FullCollection
import HybridHeap.Proofs.Sweeping

/-!
# Collections spare what is reachable

Whichever collections an allocation finds due, they leave the payloads of the nodes that are
reachable, and the node that is being built with its payload. A lite sweep cannot take what is
reachable, for a node of the garbage is not pinned and everything that holds it is garbage, so that
the garbage lies outside the nodes in reach. A full collection drops the payloads of the nodes it
leaves on the live list, and those it has found are not among them. All that can go wrong is that
the trigger does not fit in a word when it is retuned.
-/

namespace HybridHeap

open Collector Act

-- Unification would run marking where it only has to name it.
attribute [local irreducible] Collector.mark

variable {law : Law} {w : Juncture} {h k l : Heap} {n : NodeId} {run : Runner} {D : Set NodeId}

/-! ## Plain heaps -/

namespace Heap

/-- The heap of a mutator that takes no weak references and registers no root sources, whose
payloads have no destructors and are not borrowed, in which what is reachable is attached. -/
structure Plain (h : Heap) : Prop where
  simple : ∀ n p, h.payload? n = some p → p.hook = none ∧ p.borrowed = false
  weak : h.roots.weak = .empty
  external : h.roots.external = #[]
  attached : ∀ n, h.Reach n → h.Attached n
  limit : h.memory.store.limit = none

/-- A plain heap is quiet. -/
theorem Plain.quiet (hplain : h.Plain) : h.Quiet := by
  intro n p hp
  rw [(hplain.simple n p hp).1]
  rfl

/-- Without root sources the roots are those in the heap. -/
theorem rootNodes_eq (hexternal : h.roots.external = #[]) :
    h.rootNodes = h.roots.explicit.toList ++ h.stackedRoots := by
  unfold rootNodes externalRoots
  rw [hexternal]
  simp

/-- Without root sources the same roots designate the same nodes. -/
theorem rootNodes_congr (hexternal : h.roots.external = #[]) (hroots : k.roots = h.roots) :
    k.rootNodes = h.rootNodes := by
  rw [rootNodes_eq hexternal, rootNodes_eq (hroots ▸ hexternal : k.roots.external = #[])]
  unfold stackedRoots
  rw [hroots]

/-- Every root source of a plain heap asks for pinning, for there are none. -/
theorem Plain.pinning (hplain : h.Plain) : h.Pinning := pinning_of_external hplain.external

/-- There are no weak entries in a plain heap. -/
theorem Plain.not_mem_weak (hplain : h.Plain) (e : WeakEntry) : e ∉ h.roots.weak.toList := by
  rw [hplain.weak]
  exact List.not_mem_nil

/-- What is reachable is no garbage: a root designates it, or something holds it that is none. -/
theorem Reach.not_mem_garbage (inv : Invariant law w h) (hpinning : h.Pinning) (hn : h.Reach n) :
    n ∉ h.garbage := by
  induction hn with
  | root hroot => exact hpinning.not_mem_garbage inv hroot
  | edge _ hp hm ih =>
    refine not_mem_garbage_of_edge inv ih ?_
    rw [edges_eq, hp]
    exact List.mem_append_left _ hm
  | weak he hkey hvalue _ ih => exact not_mem_garbage_of_value inv he hkey ih hvalue

end Heap

/-! ## What is spared -/

/-- What collections leave of a plain heap: roots and handles, the payloads of the nodes that are
reachable or being built, and no payload that was not there before. -/
structure Spares (h k : Heap) : Prop extends Lasting h k where
  size : k.nodes.size = h.nodes.size
  roots : k.roots = h.roots
  handles : k.handles = h.handles
  lost : k.lost = h.lost
  attached : ∀ n, h.Reach n → k.Attached n
  payload : ∀ n, h.Reach n → k.payload? n = h.payload? n
  unborn : ∀ n, h.isAllocated n = false →
    k.isAllocated n = false ∧ k.payload? n = h.payload? n
  fewer : ∀ n p, k.payload? n = some p → h.payload? n = some p

namespace Spares

/-- Nothing has happened to a plain heap. -/
theorem refl (hplain : h.Plain) : Spares h h :=
  { Lasting.refl h with
    size := rfl
    roots := rfl
    handles := rfl
    lost := rfl
    attached := hplain.attached
    payload := fun _ _ => rfl
    unborn := fun _ hn => ⟨hn, rfl⟩
    fewer := fun _ _ hp => hp }

/-- What is reachable stays so, and nothing else becomes so. -/
theorem reach_iff (hplain : h.Plain) (hs : Spares h k) : k.Reach n ↔ h.Reach n := by
  have hroots : k.rootNodes = h.rootNodes := Heap.rootNodes_congr hplain.external hs.roots
  have hweak : k.roots.weak = h.roots.weak := by rw [hs.roots]
  constructor
  · exact .mono hroots.symm hweak.symm fun m p _ _ hp => hs.fewer m p hp
  · refine .mono hroots hweak fun m p hm _ hp => ?_
    rw [hs.payload m hm]
    exact hp

/-- What is left of a plain heap is plain. -/
theorem plain (hplain : h.Plain) (hs : Spares h k) : k.Plain where
  simple := fun n p hp => hplain.simple n p (hs.fewer n p hp)
  weak := by
    rw [hs.roots]
    exact hplain.weak
  external := by
    rw [hs.roots]
    exact hplain.external
  attached := fun n hn => hs.attached n ((hs.reach_iff hplain).1 hn)
  limit := hs.limit.trans hplain.limit

/-- The guards of the mutator are still there. -/
theorem guards (hs : Spares h k) : k.guards = h.guards := by
  unfold Heap.guards
  rw [hs.handles, hs.lost]

/-- What one collection spares the next does. -/
theorem trans (hplain : h.Plain) (h₁ : Spares h k) (h₂ : Spares k l) : Spares h l :=
  { h₁.toLasting.trans h₂.toLasting with
    size := h₂.size.trans h₁.size
    roots := h₂.roots.trans h₁.roots
    handles := h₂.handles.trans h₁.handles
    lost := h₂.lost.trans h₁.lost
    attached := fun n hn => h₂.attached n ((h₁.reach_iff hplain).2 hn)
    payload := fun n hn =>
      (h₂.payload n ((h₁.reach_iff hplain).2 hn)).trans (h₁.payload n hn)
    unborn := fun n hn => by
      obtain ⟨hn₁, hp₁⟩ := h₁.unborn n hn
      obtain ⟨hn₂, hp₂⟩ := h₂.unborn n hn₁
      exact ⟨hn₂, hp₂.trans hp₁⟩
    fewer := fun n p hp => h₁.fewer n p (h₂.fewer n p hp) }

/-- A plain heap is spared if the payloads that have gone are those of nodes with storage that are
out of reach, and no other node has lost its storage or its payload. -/
theorem of_remains {E : Set NodeId} (hplain : h.Plain) (hr : Remains D E h k) (hl : Lasting h k)
    (hout : ∀ n ∈ D, h.isAllocated n = true ∧ ¬h.Reach n)
    (hstage : ∀ n ∉ D, k.stage n = h.stage n)
    (hdetached : ∀ n ∉ D, k.isDetached n = h.isDetached n) : Spares h k := by
  have hkept : ∀ n, h.Reach n → n ∉ D := fun n hn hmem => (hout n hmem).2 hn
  have hunborn : ∀ n, h.isAllocated n = false → n ∉ D := fun n hn hmem => by
    rw [(hout n hmem).1] at hn
    cases hn
  have hallocated : ∀ n ∉ D, k.isAllocated n = h.isAllocated n := fun n hn => by
    rw [Bool.eq_iff_iff, Heap.isAllocated_iff, Heap.isAllocated_iff, hstage n hn]
  exact
    { hl with
      size := hr.size
      roots := by
        have hweak := expire_of_forall_not (t := h.roots.weak)
          (p := fun _ e => open scoped Classical in decide (e.KeyedIn E))
          fun _ e he => absurd he (hplain.not_mem_weak e)
        rw [hr.roots, hweak]
      handles := hr.handles
      lost := hr.lost
      attached := fun n hn => by
        obtain ⟨ha, hd⟩ := hplain.attached n hn
        exact ⟨(hallocated n (hkept n hn)).trans ha, (hdetached n (hkept n hn)).trans hd⟩
      payload := fun n hn => hr.payload n (hkept n hn)
      unborn := fun n hn =>
        ⟨(hallocated n (hunborn n hn)).trans hn, hr.payload n (hunborn n hn)⟩
      fewer := fun n p hp => by
        by_cases hn : n ∈ D
        · rw [hr.gone n hn] at hp
          cases hp
        · rw [← hr.payload n hn]
          exact hp }

end Spares

/-! ## Collections -/

/-- The trigger that an adaptive heap would be given now does not fit in a word. -/
def Heap.Strained (h : Heap) : Prop :=
  h.config.adaptive = true ∧
    Word.largest < h.bytes + max (h.headroom h.stats.fullCollections) h.config.minTrigger

/-- Where a collection may be asked for in a heap that is neither torn nor scarred and has every
attached node on a list. -/
structure Juncture.Steady (w : Juncture) : Prop extends w.Open where
  torn : w.torn = false
  scarred : w.scarred = false
  loose : w.loose = []

/-- Between operations a collection may be asked for. -/
theorem Juncture.steady_rest : rest.Steady :=
  { ready_rest.toOpen with torn := rfl, scarred := rfl, loose := rfl }

/-- So it may while a node is being built. -/
theorem Juncture.Steady.build (hw : w.Steady) (n : NodeId) :
    Steady { w with building := n :: w.building } :=
  { hw.toOpen.build n with torn := hw.torn, scarred := hw.scarred, loose := hw.loose }

/-- Marking finds everything that is reachable in a plain heap, where nothing of it looks marked. -/
theorem Heap.Plain.found (hplain : h.Plain) (inv : Invariant law w h) (hready : w.Idle)
    (hguard : w.guard = none) (hscarred : w.scarred = false) (hloose : w.loose = [])
    (hn : h.Reach n) : h.Found n :=
  hn.found inv hready.dropping
    (fun _ hm => unmarked_start inv hscarred (by simp [hguard]) hloose hm.1 hm.2)
    fun m p _ hp => (hplain.simple m p hp).2

namespace Collector

/-- A lite sweep spares what is reachable. -/
theorem liteSweep_spares (hidle : run.Idle) (hplain : h.Plain) (htidy : law.tidy = true)
    (hready : w.guard = none → w.Idle) (hswept : w.guard = none → w.swept = none)
    (htorn : w.torn = false) (inv : Invariant law w h) (hi : h.isInhibited = false) {fuel : Nat}
    (hfuel : 2 * h.nodes.size < fuel) :
    Returns (liteSweep run fuel) h fun _ h' => Invariant law w h' ∧ Spares h h' := by
  refine (liteSweep_quiet_of_idle hidle hplain.quiet htidy hready hswept htorn inv hi
    hfuel).mono ?_
  rintro _ h' ⟨-, inv', hc, hl⟩
  have hout : ∀ n ∈ h.garbage, h.isAllocated n = true ∧ ¬h.Reach n := fun n hn =>
    ⟨Heap.isAllocated_of_mem_garbage inv hn, fun hreach =>
      hreach.not_mem_garbage inv hplain.pinning hn⟩
  exact ⟨inv', .of_remains hplain hc.toRemains hl hout hc.stage hc.detached⟩

/-- Marking and sweeping spare what is reachable. -/
theorem markAndSweep_spares (hidle : run.Idle) (hplain : h.Plain) (hready : w.Idle)
    (hguard : w.guard = none) (hscarred : w.scarred = false) (hloose : w.loose = [])
    (inv : Invariant law w h) {fuel : Nat} (hfuel : h.nodes.size < fuel) :
    Returns (markAndSweep run fuel) h fun _ h' =>
      Invariant law { w with guard := none, phase := .sweeping } h' ∧ Spares h h' := by
  have hout : ∀ n ∈ h.missed, h.isAllocated n = true ∧ ¬h.Reach n := by
    rintro n ⟨halloc, hunfound, -⟩
    exact ⟨halloc, fun hreach => hunfound (hplain.found inv hready hguard hscarred hloose hreach)⟩
  refine (markAndSweep_condemns hidle hplain.quiet hready hguard hscarred inv hfuel).mono ?_
  rintro _ k ⟨-, inv', hc, -⟩
  refine ⟨inv', .of_remains hplain hc.toRemains hc.toLasting hout (fun n _ => ?_) fun n hn => ?_⟩
  · rw [hc.stage]
  · rw [Bool.eq_iff_iff, hc.detached, or_iff_left hn]

/-- A full collection spares what is reachable. -/
theorem markSweep_spares (hidle : run.Idle) (hplain : h.Plain) (htidy : law.tidy = true)
    (hready : w.guard = none → w.Idle) (hopen : w.guard = none → w.swept = none)
    (htorn : w.torn = false) (hscarred : w.scarred = false) (hloose : w.loose = [])
    (inv : Invariant law w h) (hi : h.isInhibited = false) {fuel : Nat}
    (hfuel : 2 * h.nodes.size < fuel) :
    Returns (markSweep run fuel) h fun _ h' =>
      Invariant law { w with phase := .idle } h' ∧ Spares h h' := by
  have hguard := guard_eq_none inv hi
  have hcalm := hready hguard
  rw [markSweep_eq]
  simp only [Returns, leads_bind, leads_view, hi, Bool.false_eq_true, if_false]
  refine (markAndSweep_spares hidle hplain hcalm hguard hscarred hloose inv (by omega)).leads ?_
  rintro _ h₁ ⟨inv₁, hs₁⟩
  have hi₁ : h₁.isInhibited = false :=
    (isInhibited_eq inv inv₁ hguard rfl hs₁.guards).trans hi
  have hfuel₁ : 2 * h₁.nodes.size < fuel := by
    rw [hs₁.size]
    exact hfuel
  refine (liteSweep_spares (w := { w with guard := none, phase := .sweeping }) hidle
    (hs₁.plain hplain) htidy (fun _ => (hcalm.guarded none).during _ _)
    (fun _ => hopen hguard) htorn inv₁ hi₁ hfuel₁).leads ?_
  rintro _ h₂ ⟨inv₂, hs₂⟩
  have hspares := hs₁.trans hplain hs₂
  have inv₃ := inv₂.enterPhase hcalm.parting .idle
  rw [← hguard] at inv₃
  exact ⟨inv₃, { hspares with }⟩

/-- Retuning the trigger changes nothing else, and fails only if the trigger does not fit in a
word. -/
theorem retune_changes : Leads retune h
    (fun _ h' => ∃ trigger events, h' = { h with trigger, events })
    fun e h' => e = .overflow ∧ h' = h ∧ h.Strained := by
  unfold retune setTrigger
  simp only [leads_bind, leads_view]
  split
  · rename_i hadaptive
    simp only [leads_bind, leads_view]
    split
    · exact ⟨_, _, rfl⟩
    · rename_i hended
      refine ⟨rfl, rfl, hadaptive, ?_⟩
      by_contra hfits
      simp [Balancer.ended?, Balancer.new, Word.fit?, Nat.not_lt.1 hfits] at hended
  · simp only [leads_bind, leads_view]
    split
    · exact ⟨_, _, rfl⟩
    · exact ⟨h.trigger, h.events, rfl⟩

/-- A full collection that the manager lets begin spares what is reachable, and fails only if the
trigger does not fit in a word. -/
theorem collect_spares (hidle : run.Idle) (hplain : h.Plain) (htidy : law.tidy = true)
    (hsteady : w.Steady) (inv : Invariant law w h) (hi : h.isInhibited = false) {fuel : Nat}
    (hfuel : 2 * h.nodes.size < fuel) :
    Leads (collect run fuel) h (fun _ h' => Invariant law w h' ∧ Spares h h')
      fun e h' => e = .overflow ∧ Invariant law w h' ∧ Spares h h' := by
  unfold collect
  simp only [leads_bind, leads_view]
  split
  case isTrue => exact ⟨inv, .refl hplain⟩
  case isFalse hcollecting =>
    rw [Bool.not_eq_true, inv.collecting] at hcollecting
    have hreach : ∀ n, h.Reach n ↔ Heap.Reach { h with collecting := true } n := fun n =>
      Heap.Reach.congr rfl rfl rfl
    have hplain' : Heap.Plain { h with collecting := true } :=
      { hplain with attached := fun n hn => hplain.attached n ((hreach n).2 hn) }
    simp only [leads_update, leads_ensuring, leads_bind, leads_view]
    refine (markSweep_spares (w :=
        { w with collecting := true, collected := some h.chronicle.collections }) hidle hplain'
      htidy (fun hnone => { hsteady.idle hnone with }) hsteady.swept hsteady.torn hsteady.scarred
      hsteady.loose inv.engage hi hfuel).leads ?_
    rintro result h₁ ⟨inv₁, hs₁⟩
    have hguard := guard_eq_none inv hi
    have hopen := hsteady.unrecorded hguard
    rw [← hsteady.calm hguard hcollecting] at inv₁
    have hspares : Spares h h₁ :=
      { hs₁ with
        attached := fun n hn => hs₁.attached n ((hreach n).1 hn)
        payload := fun n hn => hs₁.payload n ((hreach n).1 hn) }
    refine (retune_changes.and (retune_spec inv₁)).mono ?_ ?_
    · rintro _ _ ⟨⟨trigger, events, rfl⟩, inv₂⟩
      have inv₃ := Invariant.register (w := { w with collecting := true }) inv₂ result result.marked
        h₁.bytes
      simp only [record, report, leads_update]
      split
      · exact ⟨Invariant.disengage hcollecting { inv₃ with } (hopen _), { hspares with }⟩
      · exact ⟨Invariant.disengage hcollecting { inv₃ with } (hopen _), { hspares with }⟩
    · rintro e _ ⟨⟨rfl, rfl, -⟩, -⟩
      exact ⟨rfl, inv₁.disengage hcollecting (hopen _), { hspares with }⟩

/-- The collections that are due before an allocation spare what is reachable. -/
theorem collectIfDue_spares (hidle : run.Idle) (hplain : h.Plain) (htidy : law.tidy = true)
    (hsteady : w.Steady) (inv : Invariant law w h) {fuel : Nat}
    (hfuel : 2 * h.nodes.size < fuel) :
    Leads (collectIfDue run fuel) h (fun _ h' => Invariant law w h' ∧ Spares h h')
      fun e h' => e = .overflow ∧ Invariant law w h' ∧ Spares h h' := by
  -- The full collection comes last, whether or not a lite sweep has come first.
  have hfull : ∀ k, h.isInhibited = false → Invariant law w k → Spares h k →
      Leads (do if ← Act.view fullDue then discard <| collect run fuel) k
        (fun _ h' => Invariant law w h' ∧ Spares h h')
        fun e h' => e = .overflow ∧ Invariant law w h' ∧ Spares h h' := by
    intro k hi inv' hs
    have hguard := guard_eq_none inv hi
    have hi' : k.isInhibited = false :=
      (isInhibited_eq inv inv' hguard hguard hs.guards).trans hi
    have hfuel' : 2 * k.nodes.size < fuel := by
      rw [hs.size]
      exact hfuel
    simp only [leads_bind, leads_view]
    split
    · rw [leads_discard]
      refine (collect_spares hidle (hs.plain hplain) htidy hsteady inv' hi' hfuel').mono ?_ ?_
      · exact fun _ _ hpost => ⟨hpost.1, hs.trans hplain hpost.2⟩
      · exact fun _ _ hpost => ⟨hpost.1, hpost.2.1, hs.trans hplain hpost.2.2⟩
    · exact ⟨inv', hs⟩
  unfold collectIfDue
  simp only [leads_bind, leads_view]
  cases hi : h.isInhibited with
  | true => exact ⟨inv, .refl hplain⟩
  | false =>
    simp only [Bool.not_false, if_true, leads_bind, leads_view]
    split
    · simp only [leads_bind, leads_discard]
      refine (liteSweep_spares hidle hplain htidy hsteady.idle hsteady.swept hsteady.torn
        inv hi hfuel).leads ?_
      rintro _ h₁ ⟨inv₁, hs₁⟩
      have hafter := hfull h₁ hi inv₁ hs₁
      simp only [leads_bind, leads_view] at hafter
      exact hafter
    · have hafter := hfull h hi inv (.refl hplain)
      simp only [leads_bind, leads_view] at hafter
      exact hafter

end Collector

/-! ## Allocating -/

/-- Building a node leaves what is reachable. -/
theorem Heap.reach_build_iff (inv : Invariant law w h) (kind : Kind) (payload : Payload) :
    (h.build kind payload).Reach n ↔ h.Reach n := by
  have hroots : (h.build kind payload).rootNodes = h.rootNodes := by
    unfold rootNodes externalRoots designated
    rw [h.isAllocated_build]
    rfl
  have hpayload : ∀ m, h.Reach m → (h.build kind payload).payload? m = h.payload? m := by
    intro m hm
    have hlt := lt_size_of_isAllocated (hm.isAllocated inv)
    rw [h.payload?_build, if_neg (Nat.ne_of_lt hlt)]
  constructor
  · refine .mono hroots.symm rfl fun m p _ hm hp => ?_
    rw [← hpayload m hm]
    exact hp
  · refine .mono hroots rfl fun m p hm _ hp => ?_
    rw [hpayload m hm]
    exact hp

/-- A plain heap is plain with a further node built around a payload without a destructor. -/
theorem Heap.Plain.build (hplain : h.Plain) (inv : Invariant law w h) (kind : Kind)
    {payload : Payload} (hhook : payload.hook = none) (hborrowed : payload.borrowed = false) :
    (h.build kind payload).Plain where
  simple := by
    intro n p hp
    rw [h.payload?_build] at hp
    split_ifs at hp
    · cases hp
      exact ⟨hhook, hborrowed⟩
    · exact hplain.simple n p hp
  weak := hplain.weak
  external := hplain.external
  attached := by
    intro n hn
    have hattached := hplain.attached n ((h.reach_build_iff inv kind payload).1 hn)
    unfold Attached
    rw [h.isAllocated_build, h.isDetached_build]
    exact hattached
  limit := hplain.limit

namespace Collector

/-- In a plain heap a node is equipped after the collections that are due have spared what is
reachable, unless the trigger does not fit in a word. -/
theorem allocate_spares {kind : Kind} {payload : Payload} (hidle : run.Idle) (hplain : h.Plain)
    (htidy : law.tidy = true) (hhook : payload.hook = none) (hborrowed : payload.borrowed = false)
    (haligned : kind.alignment ≤ blockAlignment)
    (inv : Invariant law (Juncture.rest.holding payload.allEdges) h) {fuel : Nat}
    (hfuel : 2 * (h.nodes.size + 1) < fuel) :
    Leads (allocate run fuel kind payload) h
      (fun n h' => n = h.nodes.size ∧ ∃ k base, Spares (h.build kind payload) k ∧
        Invariant law { Juncture.rest with building := [n] } k ∧
        k.memory.admit? (k.kind n).size = some base ∧ h' = k.equip n base)
      fun e _ => e = .overflow := by
  have hbuilt : Invariant law { Juncture.rest with building := [h.nodes.size] }
      (h.build kind payload) := inv.build (w := .rest) kind
  have hplain' := hplain.build inv kind hhook hborrowed
  have hsize : (h.build kind payload).nodes.size = h.nodes.size + 1 := Array.size_push _
  have hkind : (h.build kind payload).kind h.nodes.size = kind := by
    unfold Heap.kind
    rw [h.getElem?_build, if_pos rfl]
    rfl
  have hpayload : (h.build kind payload).payload? h.nodes.size = some payload := by
    rw [h.payload?_build, if_pos rfl]
  have hunborn : (h.build kind payload).isAllocated h.nodes.size = false :=
    (hbuilt.unborn_of_building (w := { Juncture.rest with building := [h.nodes.size] })
      List.mem_cons_self).2
  unfold allocate place
  simp only [leads_bind, leads_reserve, leads_onFailure, leads_pure, leads_view]
  refine (collectIfDue_spares hidle hplain' htidy (Juncture.steady_rest.build _) hbuilt
    (by rw [hsize]; exact hfuel)).mono ?_ ?_
  · rintro _ k ⟨inv', hs⟩
    rw [hs.kind, hkind, if_neg (Nat.not_lt.2 haligned)]
    obtain ⟨base, hbase⟩ := Option.isSome_iff_exists.1
      (Memory.Allocator.admit?_isSome (hs.plain hplain').limit kind.size_le_systemLimit)
    simp only [leads_bind, leads_view, hbase]
    rw [leads_install]
    refine ⟨trivial, k, base, hs, inv', ?_, rfl⟩
    rw [hs.kind, hkind, hbase]
  · rintro e k ⟨rfl, inv', hs⟩
    -- The payload that no node is to hold is dropped again, which cannot fail.
    have hkept : k.payload? h.nodes.size = some payload := (hs.unborn _ hunborn).2.trans hpayload
    have hout : k.isAllocated h.nodes.size = false := (hs.unborn _ hunborn).1
    refine (dropPayload_quiet hidle (hs.plain hplain').quiet inv' rfl [] []
      (by simp [Juncture.rest]) (by simp [Juncture.rest]) (by simp [Juncture.rest])
      (by simp [Juncture.rest]) (by rw [hkept]; rfl) (by rw [hout]; simp)).leads ?_
    exact fun _ _ _ => rfl

end Collector

end HybridHeap
