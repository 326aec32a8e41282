import HybridHeap.Proofs.Dropping

/-!
# Reclaiming keeps the invariant

Expiring weak entries and giving nodes back, up to a whole lite sweep. An entry that expires leaves
its value in flight, and a node that is given back has first been made undesignatable.
-/

namespace HybridHeap

open Collector Act

variable {law : Law} {w : Juncture} {h h' : Heap} {n : NodeId}

/-! ## Expiring weak entries -/

namespace Heap

/-- The heap with the weak entries for which `p` holds expired. -/
def expire (h : Heap) (p : Nat → WeakEntry → Bool) : Heap :=
  h.modifyRoots fun r => { r with weak := Collector.expire p r.weak }

/-- The values of the weak entries for which `p` holds. -/
def expiredValues (h : Heap) (p : Nat → WeakEntry → Bool) : List NodeId :=
  (expired p h.roots.weak).filterMap Expired.value

/-- The value of an entry that expires is a holder no more. -/
theorem holders_expire (h : Heap) (p : Nat → WeakEntry → Bool) (m : NodeId) :
    (h.expire p).holders m + (h.expiredValues p).count m = h.holders m := by
  have hvalues : (h.expiredValues p).count m =
      ((h.roots.weak.entries.filter fun x => p x.1 x.2).map fun x => x.2.edges.count m).sum := by
    unfold expiredValues expired
    show (((h.roots.weak.entries.filter fun x => p x.1 x.2).map
      fun x => Expired.mk x.2.value x.2.finalizer).filterMap Expired.value).count m = _
    induction h.roots.weak.entries.filter fun x => p x.1 x.2 with
    | nil => rfl
    | cons x l ih =>
      rw [List.map_cons, List.map_cons, List.sum_cons, ← ih]
      cases hv : x.2.value with
      | none => simp [WeakEntry.edges, hv]
      | some v => simp [WeakEntry.edges, hv, List.count_cons, Nat.add_comm]
  have hsum := @sum_toList_expire p h.roots.weak (fun e => e.edges.count m) rfl
  show h.payloadHolders m + h.handleHolders m + h.rootHolders m +
    ((Collector.expire p h.roots.weak).toList.map fun e => e.edges.count m).sum +
    h.lostHolders m + _ = _
  rw [hvalues]
  unfold holders weakHolders
  omega

end Heap

/-- If `p` holds of no entry, none expires. -/
theorem Heap.expire_of_forall_not {p : Nat → WeakEntry → Bool}
    (hp : ∀ slot, ∀ e ∈ h.roots.weak.toList, p slot e = false) : h.expire p = h := by
  have hweak := Collector.expire_of_forall_not hp
  show { h with roots := { h.roots with weak := Collector.expire p h.roots.weak } } = h
  rw [hweak]

/-- The finalizers of the weak entries for which `p` holds, by their numbers. -/
def Heap.expiredNumbers (h : Heap) (p : Nat → WeakEntry → Bool) : List Nat :=
  (expired p h.roots.weak).filterMap Expired.number?

/-- The keys of all finalizers queued so far have lost their payload. -/
def Heap.QueuedLost (h : Heap) : Prop :=
  ∀ x ∈ h.chronicle.queueings, ∀ slot m, Given h.chronicle.makings x.finalizer slot m →
    Lost h.history m.key

/-- Where no sweep is under way but for one that reclaims nodes one by one, the keys of all
finalizers queued have lost their payload. -/
theorem Invariant.queuedLost {guard : Option Guard} {reclaimed : Nat}
    (inv : Invariant law { w with guard, reclaimed } h) (hw : w.Intact) (hidle : w.Idle) :
    h.QueuedLost := by
  intro x hx slot m hm
  have hline : x ∈ inLine h.history h.phase h.chronicle.queueings w.parting :=
    List.mem_append_right _ hx
  refine ((inv.deaths hw).due x hline slot m hm).resolve_right ?_
  rw [hidle.loose, hidle.dropping, hidle.kept]
  rintro (⟨⟨⟩⟩ | ⟨⟨⟩⟩ | ⟨hkept, -⟩)
  exact hkept rfl

/-- The weak entries for which `p` holds may expire, and a full collection may have found from then
on what is in `kept`: the keys of these entries, if alive, are about to lose their payload or are
forsaken, and the keys of the others are not forsaken if they were not. By then the keys of all
finalizers queued have lost their payload, and no destructor is running but for nodes that are being
built. -/
structure Heap.Expires (h : Heap) (w : Juncture) (p : Nat → WeakEntry → Bool)
    (kept : Option (List (NodeId × Bool))) : Prop where
  parting : w.parting = []
  started : ∀ n ∈ w.started, n ∈ w.building
  lost : h.QueuedLost
  alike : h.phase = .marking ∨
    ∃ key, ∀ slot e, h.roots.weak.get? slot = some e → p slot e = true → e.key = some key
  dead : ∀ slot e key, h.roots.weak.get? slot = some e → p slot e = true → e.key = some key →
    h.stage key = .allocated → h.isDetached key = false → key ∈ w.loose ∨ Forsaken kept key
  forsaken : ∀ n, Forsaken w.kept n → Forsaken kept n
  spared : ∀ slot e key, h.roots.weak.get? slot = some e → p slot e = false → e.key = some key →
    h.isDetached key = false → ¬Forsaken w.kept key → ¬Forsaken kept key

/-- The entries keyed by a node may expire when it is about to lose its payload. -/
theorem Heap.expires_of_mem_loose {guard : Option Guard} {reclaimed : Nat} (hidle : w.Idle)
    (hlost : h.QueuedLost) :
    h.Expires { w with guard, loose := n :: w.loose, reclaimed } (fun _ e => e.key == some n)
      w.kept where
  parting := hidle.parting
  started := hidle.started
  lost := hlost
  alike := .inr ⟨n, fun _ _ _ hp => beq_iff_eq.1 hp⟩
  dead := fun slot e key _ hp hkey _ _ => by
    rw [hkey, beq_iff_eq, Option.some.injEq] at hp
    exact .inl (hp ▸ List.mem_cons_self)
  forsaken := fun _ hf => hf
  spared := fun _ _ _ _ _ _ _ hf => hf

/-- A node whose entries may expire has lost its payload or is about to. -/
theorem Invariant.lost_or_due {kept : Option (List (NodeId × Bool))} (inv : Invariant law w h)
    (hkept : ∀ l, kept = some l → h.keeps = l) (hn : h.isAllocated n = true)
    (hdead : h.isDetached n = false → n ∈ w.loose ∨ Forsaken kept n) :
    Lost h.history n ∨ Due w.loose w.dropping kept (h.rings.toList liveList) n := by
  by_cases hdrop : n ∈ w.dropping
  · exact .inr (.dropping hdrop)
  · by_cases hloose : n ∈ w.loose
    · exact .inr (.loose hloose)
    · cases hdetached : h.isDetached n with
      | true => exact .inl (inv.lost_of_isDetached hn hdetached hdrop)
      | false =>
        -- A full collection has not found it, so it has been left on the live list.
        obtain ⟨l, hl, hout⟩ := (hdead hdetached).resolve_left hloose
        refine .inr (.listed (hl ▸ Option.some_ne_none l) ?_)
        refine (inv.attached n hloose hn hdetached).resolve_right fun hreach => ?_
        rw [← hkept l hl] at hout
        exact hout (n, h.isDetached n) (List.mem_map_of_mem hreach) rfl

/-- When weak entries expire, their values are in flight and their finalizers are still to be
queued. -/
theorem Invariant.expire {p : Nat → WeakEntry → Bool} {kept : Option (List (NodeId × Bool))}
    (inv : Invariant law w h) (hkept : ∀ l, kept = some l → h.keeps = l)
    (hlags : w.scarred = false → h.Lags { w with kept }) (hp : w.Intact → h.Expires w p kept) :
    Invariant law
      (Juncture.holding { w with kept, parting := h.expiredNumbers p ++ w.parting }
        (h.expiredValues p)) (h.expire p) := by
  have hdebts : ∀ m, (h.expire p).debts
      (Juncture.holding { w with kept, parting := h.expiredNumbers p ++ w.parting }
        (h.expiredValues p)) m = h.debts w m := by
    intro m
    have hexpire := h.holders_expire p m
    rw [Heap.debts_holding_append]
    show (h.expire p).holders m + w.pins.count m + w.flight.count m + _ =
      h.holders m + w.pins.count m + w.flight.count m
    omega
  exact
    { inv with
      covered := fun m => by
        rw [hdebts]
        exact inv.covered m
      grounded := fun m => by
        rw [hdebts]
        exact inv.grounded m
      lagging := hlags
      kept := hkept
      weakKeys := fun e he key hkey => by
        obtain rfl | he := mem_toList_expire he
        · cases hkey
        · exact inv.weakKeys e he key hkey
      hollow := fun e he hkey => by
        obtain rfl | he := mem_toList_expire he
        · rfl
        · exact inv.hollow e he hkey
      weak := occupiedBy_expire inv.weak p
      doomed := fun m hm => by
        have hold := inv.doomed m hm
        refine ⟨hold.allocated, hold.count, hold.unqueued, hold.unlisted, fun e he => ?_⟩
        obtain rfl | he := mem_toList_expire he
        · exact fun hkey => by cases hkey
        · exact hold.unkeyed e he
      ledger := fun hw => (inv.ledger hw).expire p
      current := fun hw =>
        have hexp := hp hw
        (inv.current hw).expire (inv.ledger hw) hexp.dead hexp.forsaken hexp.spared
      deaths := fun hw => by
        have hexp := hp hw
        have hdeaths := inv.deaths hw
        have hledger := inv.ledger hw
        rw [hexp.parting] at hdeaths hledger
        show Deaths _ _ _ _ _ _ (h.expiredNumbers p ++ w.parting) _
        rw [hexp.parting, List.append_nil]
        refine hdeaths.expire hledger inv.hollow hexp.lost (fun slot e m he hpe hkey hm => ?_)
          hexp.alike
        obtain ⟨halloc, -⟩ := inv.weakKeys e (SlotTable.mem_toList.2 ⟨slot, he⟩) m.key hkey
        refine ⟨fun htime => ?_, inv.lost_or_due hkept halloc fun hdetached =>
          hexp.dead slot e m.key he hpe hkey (Heap.isAllocated_iff.1 halloc) hdetached⟩
        obtain ⟨hdetached, -⟩ := (inv.current hw).keyed slot e m m.key he hkey hm htime
        exact inv.not_lost (inv.isSome_payload? halloc hdetached) fun hs =>
          inv.not_mem_building halloc (hexp.started _ hs) }

/-- Queueing the finalizer that is left of an expired entry. -/
theorem Invariant.enqueue {e : Expired}
    (inv : Invariant law { w with parting := e.number?.toList ++ w.parting } h) :
    Invariant law w ({ h with pending := h.pending ++ e.finalizer.toList }.modifyChronicle
      (·.queue e.number? h.history h.phase)) :=
  { inv with
    ledger := fun hw => (inv.ledger hw).enqueue
    deaths := fun hw => (inv.deaths hw).enqueue
    past := inv.past.queue _ _ _ }

/-- Queueing finalizers changes nothing that is counted. -/
theorem lowered_pending (h : Heap) (pending : List Finalizer) (f : Chronicle → Chronicle) :
    Lowered h ({ h with pending }.modifyChronicle f) :=
  { Lowered.refl h with
    eq := rfl
    shells := rfl }

namespace Collector

/-- Settling expired entries counts their values down and queues their finalizers. -/
theorem settle_spec {dead : List Expired}
    (inv : Invariant law
      (Juncture.holding { w with parting := dead.filterMap Expired.number? ++ w.parting }
        (dead.filterMap Expired.value)) h) :
    Returns (settle dead) h fun _ h' => Invariant law w h' ∧ Lowered h h' := by
  induction dead generalizing h with
  | nil => exact ⟨inv, .refl h⟩
  | cons e rest ih =>
    have hvalues : (e :: rest).filterMap Expired.value =
        e.value.toList ++ rest.filterMap Expired.value := by
      cases hv : e.value <;> simp [hv]
    have hnumbers : (e :: rest).filterMap Expired.number? =
        e.number?.toList ++ rest.filterMap Expired.number? := by
      cases hi : e.number? <;> simp [hi]
    rw [hvalues, Juncture.holding_append, hnumbers, List.append_assoc] at inv
    unfold settle
    simp only [Returns, leads_bind, leads_onFailure, leads_update]
    refine (forM_decrement_spec inv).leads ?_
    rintro _ h₁ ⟨inv₁, hl₁⟩
    have inv₂ := Invariant.enqueue (w := Juncture.holding
      { w with parting := rest.filterMap Expired.number? ++ w.parting }
      (rest.filterMap Expired.value)) inv₁
    exact Leads.imp (ih inv₂) fun _ h₂ hpost =>
      ⟨hpost.1, (hl₁.trans (lowered_pending h₁ _ _)).trans hpost.2⟩

/-- Expiring weak entries takes them from the table, counts their values down and queues their
finalizers. -/
theorem expireEntries_spec {p : Nat → WeakEntry → Bool} {kept : Option (List (NodeId × Bool))}
    (inv : Invariant law w h) (hkept : ∀ l, kept = some l → h.keeps = l)
    (hlags : w.scarred = false → h.Lags { w with kept }) (hp : w.Intact → h.Expires w p kept) :
    Returns (expireEntries p) h fun _ h' =>
      Invariant law { w with kept } h' ∧ Lowered (h.expire p) h' := by
  unfold expireEntries
  simp only [Returns, leads_bind, leads_view, leads_update]
  exact settle_spec (w := { w with kept }) (inv.expire hkept hlags hp)

end Collector

/-! ## Giving nodes back -/

namespace Heap

/-- The heap after the storage of a node went back. -/
def giveBack (h : Heap) (n : NodeId) : Heap :=
  (({ h with nodeCount := h.nodeCount - 1 }.modifyMemory (·.clearMark (h.block n))).modifyNode n
    fun node => { node with stage := .freed }).modifyMemory
      (·.release (h.block n) (h.kind n).size)

variable {h : Heap} {n : NodeId}

/-- It goes unrecorded that a node is given back that has storage. -/
theorem modifyChronicle_giveBack (hn : h.isAllocated n = true) :
    h.modifyChronicle (·.giveBack (h.isAllocated n)) = h := by
  rw [hn]
  rfl

theorem stage_giveBack (hn : n < h.nodes.size) (m : NodeId) :
    (h.giveBack n).stage m = if m = n then .freed else h.stage m := by
  unfold stage giveBack
  show ((h.modifyNode n _).nodes[m]?.map Node.stage).getD _ = _
  rw [getElem?_modifyNode]
  split_ifs with hmn
  · rw [hmn, Array.getElem?_eq_getElem hn]
    rfl
  · rfl

theorem isAllocated_giveBack (hn : n < h.nodes.size) (m : NodeId) :
    (h.giveBack n).isAllocated m = if m = n then false else h.isAllocated m := by
  have hstage := stage_giveBack hn m
  rw [Bool.eq_iff_iff, isAllocated_iff, hstage]
  split_ifs
  · simp
  · exact isAllocated_iff.symm

@[simp] theorem status_giveBack (h : Heap) (n m : NodeId) :
    (h.giveBack n).status m = h.status m := status_modifyNode (fun _ => by rfl) h n m

@[simp] theorem kind_giveBack (h : Heap) (n m : NodeId) :
    (h.giveBack n).kind m = h.kind m := kind_modifyNode (fun _ => by rfl) h n m

@[simp] theorem block_giveBack (h : Heap) (n m : NodeId) :
    (h.giveBack n).block m = h.block m := block_modifyNode (fun _ => by rfl) h n m

@[simp] theorem payload?_giveBack (h : Heap) (n m : NodeId) :
    (h.giveBack n).payload? m = h.payload? m := payload?_modifyNode (fun _ => by rfl) h n m

@[simp] theorem holders_giveBack (h : Heap) (n m : NodeId) :
    (h.giveBack n).holders m = h.holders m := by
  have hpayload : (h.giveBack n).payloadHolders m = h.payloadHolders m :=
    payloadHolders_modifyNode h n m fun _ => by rfl
  show (h.giveBack n).payloadHolders m + _ + _ + _ + _ = _
  rw [hpayload]
  rfl

/-- What is counted over the nodes with storage loses what is counted of the node. -/
theorem sum_giveBack (hn : h.isAllocated n = true) (g : Node → Nat)
    (hg : ∀ node : Node, g { node with stage := .freed } = 0) {a : Nat}
    (ha : ∀ node, h.nodes[n]? = some node → node.stage = .allocated → g node = a) :
    ((h.giveBack n).nodes.toList.map g).sum + a = (h.nodes.toList.map g).sum := by
  obtain ⟨node, hnode, hstage⟩ := exists_of_isAllocated hn
  have hsum := sum_modify hnode (fun node => { node with stage := .freed }) g
  rw [hg, ha node hnode hstage] at hsum
  exact hsum

/-- The bytes of a node that is given back are owed no more. -/
theorem storageBytes_giveBack (hn : h.isAllocated n = true) :
    (h.giveBack n).storageBytes + (h.kind n).size = h.storageBytes :=
  sum_giveBack hn _ (fun _ => rfl) fun node hnode hstage => by
    rw [if_pos hstage, kind, hnode]
    rfl

/-- A node that is given back is one more that has been freed. -/
theorem freedCount_giveBack (hn : h.isAllocated n = true) :
    (h.giveBack n).freedCount = h.freedCount + 1 := by
  obtain ⟨node, hnode, hstage⟩ := exists_of_isAllocated hn
  have hsum := sum_modify hnode (fun node => { node with stage := .freed })
    fun node => if node.stage = .freed then 1 else 0
  rw [if_neg (by rw [hstage]; exact fun hs => by cases hs)] at hsum
  exact hsum

end Heap

/-- Giving back a node that is doomed and has no payload keeps the invariant. -/
theorem Invariant.giveBack {pins : List NodeId} {reclaimed : Nat}
    (inv : Invariant law { w with guard := some (.lite pins (some n)), reclaimed } h)
    (hpayload : h.payload? n = none) (hdrop : n ∉ w.dropping) :
    Invariant law { w with guard := some (.lite pins none), reclaimed := reclaimed + 1 }
      (h.giveBack n) := by
  have hdoomed := inv.doomed n rfl
  have hn := hdoomed.allocated
  have hlt := Heap.lt_size_of_isAllocated hn
  have halloc := Heap.isAllocated_giveBack hlt
  have hdebts : ∀ m, (h.giveBack n).debts
      { w with guard := some (.lite pins none), reclaimed := reclaimed + 1 } m =
      h.debts { w with guard := some (.lite pins (some n)), reclaimed } m := fun m =>
    congrArg (· + pins.count m + w.flight.count m) (h.holders_giveBack n m)
  have hzero := inv.debts_eq_zero_of_doomed (n := n) rfl
  -- A pin is a reference, and nothing refers to a node that is doomed.
  have hpins : n ∉ pins := fun hmem => by
    have hpos := List.count_pos_iff.2 hmem
    have hle : pins.count n ≤
        h.debts { w with guard := some (.lite pins (some n)), reclaimed } n := by
      show _ ≤ h.holders n + pins.count n + w.flight.count n
      omega
    omega
  have hfreed : ∀ m, m ≠ n → h.isAllocated m = true → (h.giveBack n).isAllocated m = true :=
    fun m hm ha => by rw [halloc, if_neg hm, ha]
  have hold : ∀ m, (h.giveBack n).isAllocated m = true → m ≠ n ∧ h.isAllocated m = true := by
    intro m hm
    rw [halloc] at hm
    split_ifs at hm with hmn
    exact ⟨hmn, hm⟩
  have hstatus : (h.giveBack n).status = h.status := funext (h.status_giveBack n)
  have hdet : (h.giveBack n).isDetached = h.isDetached := by
    funext m
    unfold Heap.isDetached
    rw [hstatus]
  have hback := inv.backed n hn
  -- Storage and block of this node are what goes; all others have theirs as before.
  exact
    { inv with
      covered := fun m => by
        rw [hdebts, hstatus]
        exact inv.covered m
      grounded := fun m hm => by
        rw [hdebts] at hm
        refine hfreed m ?_ (inv.grounded m hm)
        rintro rfl
        omega
      mem_moribund := fun m => by
        rw [halloc, hstatus]
        split_ifs with hmn
        · exact iff_of_false (hmn ▸ hdoomed.unqueued) (by simp)
        · exact inv.mem_moribund m
      size_nodes := inv.size_nodes.trans (Heap.size_nodes_modifyNode _ _ _).symm
      listed := fun l m hm =>
        hfreed m (fun hmn => hdoomed.unlisted l (hmn ▸ hm)) (inv.listed l m hm)
      attached := fun m hm ha hd => by
        rw [hdet] at hd
        exact inv.attached m hm (hold m ha).2 hd
      marked := by
        rw [hstatus]
        exact inv.marked
      settled := fun hs _ => by
        rw [hstatus]
        exact inv.settled hs (by simp)
      flips := fun hs => (inv.flips hs).imp_right fun hborn m hm => by
        rw [Heap.stage_giveBack hlt]
        split_ifs
        · exact fun hstage => by cases hstage
        · exact hborn m hm
      lagging := fun hs l hl m hm ha hout => by
        obtain ⟨hmn, ha⟩ := hold m ha
        unfold Heap.readsMarked
        rw [hstatus]
        refine inv.lagging hs l hl m (fun htaken => hm ?_) ha hout
        exact htaken.imp_right fun hdoomed => absurd (Option.some.inj hdoomed).symm hmn
      emptied := fun m hm ha => by
        rw [hdet, h.payload?_giveBack]
        exact inv.emptied m hm (hold m ha).2
      dropping := fun m hm => by
        obtain ⟨ha, hd⟩ := inv.dropping m hm
        rw [hdet]
        exact ⟨hfreed m (fun hmn => hdrop (hmn ▸ hm)) ha, hd⟩
      kept := fun l hl => by
        have hkeeps : (h.giveBack n).keeps = h.keeps :=
          Heap.keeps_eq_iff.2 ⟨rfl, fun m _ => congrFun hdet m⟩
        exact hkeeps.trans (inv.kept l hl)
      started := by
        rw [show (h.giveBack n).nodes.size = h.nodes.size from Heap.size_nodes_modifyNode _ _ _]
        exact inv.started
      timely := fun m hm => (inv.timely m hm).of_le rfl
        (fun hge => Heap.size_nodes_modifyNode _ _ _ ▸ hge)
        (fun hsome => h.payload?_giveBack n m ▸ hsome)
        fun hnone ha => ⟨h.payload?_giveBack n m ▸ hnone, (hold m ha).2⟩
      owned := fun m hm => by
        rw [h.payload?_giveBack] at hm
        refine (inv.owned m hm).imp_left (hfreed m ?_)
        rintro rfl
        rw [hpayload] at hm
        cases hm
      building := fun m hm => by
        obtain ⟨hstage, hrest⟩ := inv.building m hm
        rw [Heap.stage_giveBack hlt, if_neg, h.payload?_giveBack, hstatus]
        · exact ⟨hstage, hrest⟩
        · rintro rfl
          rw [Heap.isAllocated_iff, hstage] at hn
          cases hn
      planned := fun m kind p hp => by
        rw [h.kind_giveBack, h.payload?_giveBack]
        exact (inv.planned m kind p hp).imp_left
          (·.trans_eq (Heap.size_nodes_modifyNode _ _ _).symm)
      stacked := fun m hm =>
        hfreed m (fun hmn => hpins (hmn ▸ inv.sheltered pins _ rfl m hm)) (inv.stacked m hm)
      sheltered := fun pins' doomed' hw => by
        cases hw
        exact inv.sheltered pins _ rfl
      weakKeys := fun e he key hkey => by
        rw [hstatus]
        obtain ⟨ha, hflag⟩ := inv.weakKeys e he key hkey
        exact ⟨hfreed key (fun hkn => hdoomed.unkeyed e he (hkn ▸ hkey)) ha, hflag⟩
      doomed := fun m hm => by cases hm
      memory := (inv.memory.clearMark _).release (hback.clearMark _).lt_size _
      laid := (inv.laid.clearMark _).release _ _
      backed := fun m ha => by
        obtain ⟨hmn, ha⟩ := hold m ha
        rw [h.block_giveBack, h.kind_giveBack]
        exact ((inv.backed m ha).clearMark _).release (fun hb => hmn (inv.apart m n ha hn hb)) _
      bitmap := fun m ha => by
        obtain ⟨hmn, ha⟩ := hold m ha
        have hne : h.block m ≠ h.block n := fun hb => hmn (inv.apart m n ha hn hb)
        rw [h.block_giveBack]
        show ((h.memory.clearMark _).release _ _).isMarked _ = true
        rw [((inv.backed m ha).clearMark _).isMarked_release hne,
          Memory.Allocator.isMarked_clearMark hne]
        exact inv.bitmap m ha
      apart := fun m k hm hk => by
        rw [h.block_giveBack, h.block_giveBack]
        exact inv.apart m k (hold m hm).2 (hold k hk).2
      bytes := by
        have hsum := Heap.storageBytes_giveBack hn
        have hbytes := inv.bytes
        have hle := hbytes.le
        show w.Covers _ ((h.memory.clearMark _).release (h.block n) (h.kind n).size).bytesAllocated
        rw [(hback.clearMark _).bytesAllocated_release, Memory.Allocator.bytesAllocated_clearMark,
          ← Juncture.covers_add_iff (k := (h.kind n).size), hsum, Nat.sub_add_cancel (by omega)]
        exact hbytes
      nodeCount := by
        have hsum : (h.giveBack n).allocatedCount + 1 = h.allocatedCount :=
          Heap.sum_giveBack hn _ (fun _ => rfl) fun node _ hstage => if_pos hstage
        show h.nodeCount - 1 = _
        rw [inv.nodeCount]
        omega
      current := fun hw => by
        rw [hdet]
        refine (inv.current hw).mono (fun m hs => ?_) (fun m _ hs hd => ⟨?_, hd, id⟩)
          fun _ _ _ _ hm => hm
        · rw [Heap.stage_giveBack hlt]
          split_ifs
          · exact fun hs => by cases hs
          · exact hs
        · rw [← Heap.isAllocated_iff] at hs ⊢
          exact (hold m hs).2
      accounts := fun hw => by
        have hacc := inv.accounts hw
        have hsum := Heap.freedCount_giveBack hn
        have hfreed := hacc.freed
        exact { hacc with
          freed := by
            rw [hsum, hfreed]
            rfl } }

/-- Only how it backs the nodes matters of the memory. -/
theorem Invariant.replaceMemory {memory : Memory.Allocator} (inv : Invariant law w h)
    (hsound : memory.Sound) (hlaid : memory.Laid)
    (hbacked : ∀ m, h.isAllocated m = true → memory.Backs law.tidy (h.block m) (h.kind m).size)
    (hbitmap : ∀ m, h.isAllocated m = true → memory.isMarked (h.block m) = true)
    (hbytes : w.Covers h.storageBytes memory.bytesAllocated) :
    Invariant law w { h with memory } :=
  { inv with
    memory := hsound
    laid := hlaid
    backed := hbacked
    bitmap := hbitmap
    bytes := hbytes }

/-- In a heap that may be torn, what a lite sweep has reclaimed may be counted wrongly. -/
theorem Invariant.miscount {reclaimed : Nat} (hw : w.torn = true)
    (inv : Invariant law { w with reclaimed } h) : Invariant law w h :=
  { inv with accounts := fun hi => absurd (hw.symm.trans hi.1) (by simp) }

/-- In a heap that may be torn, the storage of a node that is given back may stay counted. -/
theorem Invariant.waste {pins : List NodeId} {reclaimed : Nat} (hw : w.torn = true)
    (inv : Invariant law { w with guard := some (.lite pins (some n)), reclaimed } h)
    (hpayload : h.payload? n = none) (hdrop : n ∉ w.dropping) :
    Invariant law { w with guard := some (.lite pins none) }
      { h.giveBack n with memory := h.memory.clearMark (h.block n) } := by
  have hn := (inv.doomed n rfl).allocated
  have hsum := Heap.storageBytes_giveBack hn
  have hold : ∀ m, (h.giveBack n).isAllocated m = true → m ≠ n ∧ h.isAllocated m = true := by
    intro m hm
    rw [Heap.isAllocated_giveBack (Heap.lt_size_of_isAllocated hn)] at hm
    split_ifs at hm with hmn
    exact ⟨hmn, hm⟩
  refine (Invariant.miscount (w := { w with guard := some (.lite pins none) }) hw
    (inv.giveBack hpayload hdrop)).replaceMemory (inv.memory.clearMark _) (inv.laid.clearMark _)
    (fun m ha => ?_) (fun m ha => ?_) ⟨?_, fun hf => absurd (hw.symm.trans hf) (by simp)⟩
  · rw [h.block_giveBack, h.kind_giveBack]
    exact (inv.backed m (hold m ha).2).clearMark _
  · obtain ⟨hmn, ha⟩ := hold m ha
    have hne : h.block m ≠ h.block n := fun hb => hmn (inv.apart m n ha hn hb)
    rw [h.block_giveBack, Memory.Allocator.isMarked_clearMark hne]
    exact inv.bitmap m ha
  · have hle := inv.bytes.le
    rw [Memory.Allocator.bytesAllocated_clearMark]
    omega

namespace Collector

variable {run : Runner} {pins : List NodeId} {reclaimed : Nat}

/-- Logging changes the events only. -/
theorem forM_log_spec {α : Type} (l : List α) (level : Level) (text : α → String) (h : Heap) :
    Returns (l.forM fun a => Act.update (·.log level (text a))) h fun _ h' =>
      ∃ events, h' = { h with events } := by
  induction l generalizing h with
  | nil => exact ⟨h.events, rfl⟩
  | cons a l ih =>
    rw [Returns, leads_forM_cons, leads_update]
    exact ih _

/-- Giving back a doomed node without a payload only fails if something was written around its
storage. The node is given back even so. -/
theorem deallocate_spec
    (inv : Invariant law { w with guard := some (.lite pins (some n)), reclaimed } h)
    (hpayload : h.payload? n = none) (hidle : w.Idle) :
    Leads (deallocate n) { h with nodeCount := h.nodeCount - 1 }
      (fun _ h' =>
        Invariant law { w with guard := some (.lite pins none), reclaimed := reclaimed + 1 } h' ∧
        ∃ events history, h' = { h.giveBack n with events, history })
      fun e h' => law.tidy = false ∧ Failed (fun h' => w.torn = true ∧
        Invariant law { w with guard := some (.lite pins none) } h') w.torn e h' := by
  have hn := (inv.doomed n rfl).allocated
  have hback := (inv.backed n hn).clearMark (h.block n)
  have hbytes : (h.kind n).size ≤ (h.memory.clearMark (h.block n)).bytesAllocated := by
    obtain ⟨node, hnode, hstage⟩ := Heap.exists_of_isAllocated hn
    have hle := le_sum hnode fun node =>
      if node.stage = .allocated then node.kind.size else 0
    rw [Memory.Allocator.bytesAllocated_clearMark]
    unfold Heap.kind
    rw [hnode]
    simp only [hstage, if_true] at hle
    exact hle.trans inv.bytes.le
  have hdrop : n ∉ w.dropping := hidle.dropping ▸ List.not_mem_nil
  have hgive := inv.giveBack hpayload hdrop
  have hstarted : n ∉ w.started := fun hs => inv.not_mem_building hn (hidle.started n hs)
  have hlt := Heap.lt_size_of_isAllocated hn
  obtain ⟨last, hlast, htimely⟩ := inv.timely n hstarted
  have hfates := htimely.bare hpayload hn
  have hfaults := hback.fault?_cases hbytes (h.kind n).size_fits
  have hhoused : Heap.isAllocated { h with nodeCount := h.nodeCount - 1 } n = true := hn
  unfold deallocate
  simp only [leads_bind, leads_view, leads_update, Heap.modifyChronicle_giveBack hhoused]
  split
  case h_1 =>
    simp only [leads_bind, leads_view, leads_update]
    refine (forM_log_spec _ _ _ _).leads ?_
    rintro _ h' ⟨events, heq⟩
    rw [heq]
    have hout : (h.giveBack n).isAllocated n = false := by
      rw [Heap.isAllocated_giveBack hlt, if_pos rfl]
    have hfreed := hgive.recordFree hidle.parting hstarted
      (by rwa [show (h.giveBack n).nodes.size = h.nodes.size from Heap.size_nodes_modifyNode _ _ _])
      ((h.payload?_giveBack n n).trans hpayload) hout hlast hfates
    exact ⟨{ hfreed with }, _, _, rfl⟩
  case h_2 hfault =>
    obtain hnone | ⟨htidy, -⟩ := hfaults
    · cases hfault.symm.trans hnone
    · exact leads_fatal.2 ⟨htidy, .of_fatal rfl fun ht =>
        ⟨ht, { inv.waste ht hpayload hdrop with }⟩⟩
  -- The other faults cannot be found with a block that is out.
  all_goals
    rename_i hfault
    obtain hnone | ⟨-, hdamaged⟩ := hfaults
    · cases hfault.symm.trans hnone
    · cases hfault.symm.trans hdamaged

end Collector

/-! ## Reclaiming a node -/

/-- A lite sweep may reclaim a node that nothing designates. -/
theorem Invariant.doom {pins : List NodeId}
    (inv : Invariant law { w with guard := some (.lite pins none) } h) (hn : h.Doomed n) :
    Invariant law { w with guard := some (.lite pins (some n)) } h :=
  { inv with
    settled := fun hs _ => inv.settled hs (by simp)
    lagging := fun hs l hl m hm =>
      inv.lagging hs l hl m fun htaken => hm (htaken.imp_right fun hnone => by cases hnone)
    sheltered := fun pins' doomed' hw => by
      cases hw
      exact inv.sheltered pins none rfl
    doomed := fun m hm => by
      cases hm
      exact hn }

/-- A lite sweep may give up reclaiming a node when a failure unwinds through it. -/
theorem Invariant.undoom {pins : List NodeId} (hw : w.scarred = true)
    (inv : Invariant law { w with guard := some (.lite pins (some n)) } h) :
    Invariant law { w with guard := some (.lite pins none) } h :=
  { inv with
    settled := fun hs _ => inv.settled hs (by simp)
    lagging := fun hs => by cases hw.symm.trans hs
    sheltered := fun pins' doomed' hw => by
      cases hw
      exact inv.sheltered pins (some n) rfl
    doomed := fun _ hm => by cases hm }

/-- After the entries keyed by a node have expired, none is keyed by it. -/
theorem Heap.unkeyed_expire (h : Heap) (n : NodeId) :
    ∀ e ∈ (h.expire fun _ e => e.key == some n).roots.weak.toList, e.key ≠ some n := by
  intro e he
  obtain ⟨slot, hslot⟩ := SlotTable.mem_toList.1 he
  rw [show (h.expire _).roots.weak = Collector.expire _ h.roots.weak from rfl, get?_expire,
    Option.map_eq_some_iff] at hslot
  obtain ⟨old, -, rfl⟩ := hslot
  split_ifs with hkey
  · exact fun hnone => by cases hnone
  · simpa using hkey

namespace Collector

variable {run : Runner} {pins : List NodeId} {reclaimed : Nat}

/-- Dropping the payload of a doomed node and giving it back keeps the invariant. -/
theorem finish_spec (hrun : run.Keeps law w.torn w.scarred)
    (inv : Invariant law
      { w with guard := some (.lite pins (some n)), loose := n :: w.loose, reclaimed } h)
    (hidle : w.Idle) :
    Leads (detach run n (h.status n)) h
      (fun _ h₁ => Leads (deallocate n) { h₁ with nodeCount := h₁.nodeCount - 1 }
        (fun _ =>
          Invariant law { w with guard := some (.lite pins none), reclaimed := reclaimed + 1 })
        (Failed (fun h' => w.torn = true ∧
          Invariant law { w with guard := some (.lite pins none) } h') w.torn))
      (Failed (fun h' => w.torn = true ∧
        Invariant law { w with guard := some (.lite pins none) } h') w.torn) := by
  have hn := (inv.doomed n rfl).allocated
  have hready : Juncture.Ready
      { w with
        guard := some (.lite pins (some n)), dropping := n :: w.dropping,
        dying := n :: w.dying, started := n :: w.started, reclaimed } := by
    refine ⟨⟨(fun hw => by cases hw), (fun hw => by cases hw), (fun hw => by cases hw),
      (fun hw => by cases hw), fun hw => by cases hw⟩,
      fun pins' doomed' hw => ?_, (fun hnone => absurd hnone (List.cons_ne_nil _ _)),
      fun hkept => absurd hidle.kept hkept, hidle.parting⟩
    cases hw
    exact ⟨List.cons_ne_nil _ _, fun m hm => by
      cases hm
      exact List.mem_cons_self⟩
  have hstarted : n ∉ w.started := fun hs => inv.not_mem_building hn (hidle.started n hs)
  refine (detach_spec (w := { w with guard := some (.lite pins (some n)), reclaimed }) hrun inv
    (fun _ _ hw => by cases hw; rfl) hn (hidle.loses n) hstarted (.inl (inv.doomed n rfl).unkeyed)
    hready).mono ?_
    fun _ _ he => he.mono fun hcut => ⟨hcut.1.1, Invariant.undoom hcut.1.2 (Invariant.miscount
      (w := { w with guard := some (.lite pins (some n)) }) hcut.1.1 hcut.2)⟩
  rintro _ h₁ ⟨inv₁, hn₁, hdet⟩
  have hdrop : n ∉ w.dropping := hidle.dropping ▸ List.not_mem_nil
  have hpayload := (inv₁.emptied n hdrop hn₁).1 hdet
  exact (deallocate_spec inv₁ hpayload hidle).mono (fun _ _ hpost => hpost.1) fun _ _ he => he.2

/-- Take apart a node that is off the queue and the lists: expire the weak entries keyed by it, drop
its payload and give its storage back. -/
def dismantle (run : Runner) (n : NodeId) : Act Unit := do
  let status ← Act.view (·.status n)
  if status.contains .weakKey then
    expireEntries fun _ e => e.key == some n
  detach run n status
  Act.update fun h => { h with nodeCount := h.nodeCount - 1 }
  deallocate n

/-- Reclaiming a node takes it off the queue, if it is flagged, and off its list, and then apart. -/
theorem destroy_eq (run : Runner) (n : NodeId) :
    destroy run n = (do
      if ← Act.view fun h => (h.status n).contains .moribund then
        unqueue n
        Act.update fun h => h.setStatus n ((h.status n).erase .moribund)
      Act.update (·.modifyRings (·.unlink (.node n)))
      dismantle run n) := rfl

/-- Taking a node apart that has a count of zero expires the entries keyed by it, after which it is
doomed, and then drops its payload and gives it back. -/
theorem dismantle_rule {Q : Unit → Heap → Prop} {E : Failure → Heap → Prop}
    (inv : Invariant law
      { w with guard := some (.lite pins none), loose := n :: w.loose, reclaimed } h)
    (hidle : w.Idle) (hn : h.isAllocated n = true) (h0 : (h.status n).count = 0)
    (hq : n ∉ h.moribund) (hunlisted : ∀ l, n ∉ h.rings.toList l) (hlost : w.Intact → h.QueuedLost)
    (hrest : ∀ h₁,
      Invariant law
        { w with guard := some (.lite pins (some n)), loose := n :: w.loose, reclaimed } h₁ →
      h₁.status n = h.status n → Lowered (h.expire fun _ e => e.key == some n) h₁ →
      Leads (detach run n (h₁.status n)) h₁
        (fun _ h₂ => Leads (deallocate n) { h₂ with nodeCount := h₂.nodeCount - 1 } Q E) E) :
    Leads (dismantle run n) h Q E := by
  unfold dismantle
  simp only [leads_bind, leads_view]
  split
  case isTrue hkey =>
    simp only [leads_bind]
    refine (expireEntries_spec inv inv.kept inv.lagging fun hw =>
      Heap.expires_of_mem_loose (w := w) hidle (hlost hw)).leads ?_
    rintro _ h₁ ⟨inv₁, hl⟩
    have hcount : (h₁.status n).count = 0 := Nat.le_zero.1 (h0 ▸ hl.le n)
    have hstatus : h₁.status n = h.status n := hl.same n (hcount.trans h0.symm)
    have hdoomed : h₁.Doomed n := by
      refine ⟨?_, hcount, ?_, ?_, ?_⟩
      · rw [hl.isAllocated]
        exact hn
      · -- The values that go may orphan others, but the count of this node was zero already.
        intro hmem
        obtain hmem | ⟨hlt, -⟩ := hl.fresh n hmem
        · exact hq hmem
        · have hlow : (h₁.status n).count < (h.status n).count := hlt
          omega
      · rw [hl.ringsEq]
        exact hunlisted
      · rw [hl.roots]
        exact Heap.unkeyed_expire _ n
    have hfinish := hrest h₁
      (Invariant.doom (w := { w with loose := n :: w.loose, reclaimed }) inv₁ hdoomed) hstatus hl
    rw [hstatus] at hfinish
    exact hfinish
  case isFalse hkey =>
    -- No entry is keyed by a node without the flag, so none has to expire.
    have hunkeyed : ∀ e ∈ h.roots.weak.toList, e.key ≠ some n := fun e he hne =>
      hkey (inv.weakKeys e he n hne).2
    have hdoomed : h.Doomed n := ⟨hn, h0, hq, hunlisted, hunkeyed⟩
    simp only [leads_bind, leads_update]
    refine hrest _
      (Invariant.doom (w := { w with loose := n :: w.loose, reclaimed }) inv hdoomed) rfl ?_
    rw [Heap.expire_of_forall_not fun _ e he => by simpa using hunkeyed e he]
    exact .refl _

/-- Reclaiming a node that was popped with a count of zero takes it off its list and apart. -/
theorem destroy_rule {Q : Unit → Heap → Prop} {E : Failure → Heap → Prop}
    (inv : Invariant law { w with guard := some (.lite pins none), reclaimed } h) (hidle : w.Idle)
    (hn : h.isAllocated n = true) (h0 : (h.status n).count = 0) (hq : n ∉ h.moribund)
    (hrest : ∀ h₁,
      Invariant law
        { w with guard := some (.lite pins (some n)), loose := n :: w.loose, reclaimed } h₁ →
      h₁.status n = h.status n →
      Lowered ((h.modifyRings (·.unlink (.node n))).expire fun _ e => e.key == some n) h₁ →
      Leads (detach run n (h₁.status n)) h₁
        (fun _ h₂ => Leads (deallocate n) { h₂ with nodeCount := h₂.nodeCount - 1 } Q E) E) :
    Leads (destroy run n) h Q E := by
  have hflag : (h.status n).contains .moribund = false := by
    have hmem := inv.mem_moribund n
    rw [hn] at hmem
    simpa [hq] using hmem
  have hunlinked := inv.unlink (hidle.loses n) (.inr ⟨_, _, rfl⟩)
  have hunlisted : ∀ l, n ∉ (h.modifyRings (·.unlink (.node n))).rings.toList l := by
    intro l
    show n ∉ (h.rings.unlink _).toList l
    rw [inv.rings.toList_unlink]
    exact (inv.rings.nodup l).not_mem_erase
  rw [destroy_eq]
  simp only [leads_bind, leads_view, hflag, Bool.false_eq_true, if_false, leads_update]
  exact dismantle_rule (w := w) hunlinked hidle hn h0 hq hunlisted
    (fun hw => inv.queuedLost hw hidle) hrest

/-- Reclaiming a node that was popped with a count of zero keeps the invariant. -/
theorem destroy_spec (hrun : run.Keeps law w.torn w.scarred)
    (inv : Invariant law { w with guard := some (.lite pins none), reclaimed } h)
    (hidle : w.Idle) (hn : h.isAllocated n = true) (h0 : (h.status n).count = 0)
    (hq : n ∉ h.moribund) :
    Leads (destroy run n) h
      (fun _ => Invariant law
        { w with guard := some (.lite pins none), reclaimed := reclaimed + 1 })
      (Failed (fun h' => w.torn = true ∧
        Invariant law { w with guard := some (.lite pins none) } h') w.torn) :=
  destroy_rule inv hidle hn h0 hq fun _ inv₁ _ _ => finish_spec hrun inv₁ hidle

/-- What is popped is reclaimed if its count is zero then, and only taken off the queue if not. -/
theorem drain_cons {rest : List NodeId} (fuel reclaimed : Nat) (hn : n < h.nodes.size)
    (hq : h.moribund = n :: rest) :
    drain run (fuel + 1) reclaimed h =
      (if (h.status n).count = 0 then do
        destroy run n
        drain run fuel (reclaimed + 1)
      else drain run fuel reclaimed) (h.popped n) := by
  have hhead : h.moribund.head? = some n := by rw [hq, List.head?_cons]
  have hcount := Heap.count_popped hn n
  conv_lhs => unfold drain
  simp only [bind, EStateM.bind, view, update, hhead]
  show (if (((h.popped n).status n).count == 0) = true then
    (destroy run n >>= fun _ => drain run fuel (reclaimed + 1))
      else drain run fuel reclaimed : Act Nat) (h.popped n) = _
  simp only [hcount, beq_iff_eq]
  rfl

/-- What is popped has storage, before and after, and is not queued any more. -/
theorem popped_spec {rest : List NodeId} (inv : Invariant law w h) (hq : h.moribund = n :: rest) :
    h.isAllocated n = true ∧ (h.popped n).isAllocated n = true ∧ n ∉ (h.popped n).moribund := by
  have hn : h.isAllocated n = true := ((inv.mem_moribund n).1 (hq ▸ List.mem_cons_self)).1
  have hnodup := inv.nodup_moribund
  rw [hq, List.nodup_cons] at hnodup
  refine ⟨hn, (Heap.isAllocated_setStatus _ n n _).trans hn, ?_⟩
  show n ∉ h.moribund.tail
  rw [hq, List.tail_cons]
  exact hnodup.1

/-- Draining the queue keeps the invariant, and counts what it reclaims. -/
theorem drain_spec (hrun : run.Keeps law w.torn w.scarred) (fuel reclaimed : Nat)
    (inv : Invariant law { w with guard := some (.lite pins none), reclaimed } h)
    (hidle : w.Idle) :
    Leads (drain run fuel reclaimed) h
      (fun total => Invariant law { w with guard := some (.lite pins none), reclaimed := total })
      (Failed (fun h' => w.torn = true ∧
        Invariant law { w with guard := some (.lite pins none) } h') w.torn) := by
  -- Between two nodes only the invariant is known, whatever the destructors of the one before did.
  induction fuel generalizing h reclaimed with
  | zero => exact leads_throw.2 .exhausted
  | succ fuel ih =>
    cases hq : h.moribund with
    | nil =>
      unfold drain
      simp only [leads_bind, leads_view, hq]
      exact inv
    | cons n rest =>
      obtain ⟨hn, hn', hout⟩ := popped_spec inv hq
      have hlt := Heap.lt_size_of_isAllocated hn
      rw [leads_congr (drain_cons fuel reclaimed hlt hq)]
      split
      case isTrue h0 =>
        rw [← Heap.count_popped hlt] at h0
        simp only [leads_bind]
        exact (destroy_spec hrun (inv.pop hq) hidle hn' h0 hout).imp
          fun _ h' inv' => ih _ inv'
      case isFalse => exact ih _ (inv.pop hq)

end Collector

/-! ## Lite sweeps -/

/-- Holding off collections once more. -/
theorem Invariant.inhibit (inv : Invariant law { w with guard := none } h) :
    Invariant law { w with guard := some .plain } { h with inhibitors := h.inhibitors + 1 } :=
  { inv with
    settled := fun hs _ => inv.settled hs (by simp)
    sheltered := fun _ _ hw => by cases hw
    doomed := fun _ hw => by cases hw
    inhibitors := congrArg (· + 1) inv.inhibitors }

/-- Holding off collections no longer. -/
theorem Invariant.permit (inv : Invariant law { w with guard := some .plain } h) :
    Invariant law { w with guard := none } { h with inhibitors := h.inhibitors - 1 } :=
  { inv with
    settled := fun hs _ => inv.settled hs (by simp)
    sheltered := fun _ _ hw => by cases hw
    doomed := fun _ hw => by cases hw
    inhibitors := congrArg (· - 1) inv.inhibitors }

/-- Counted references in flight to all roots without a count are pins. -/
theorem Invariant.pin {pins : List NodeId}
    (inv : Invariant law (Juncture.holding { w with guard := some .plain } pins) h)
    (hpins : ∀ n ∈ h.uncounted law, n ∈ pins) :
    Invariant law { w with guard := some (.lite pins none) } h := by
  have hdebts : ∀ n, h.debts { w with guard := some (.lite pins none) } n =
      h.debts (Juncture.holding { w with guard := some .plain } pins) n := by
    intro n
    rw [Heap.debts_holding_append]
    show h.holders n + pins.count n + w.flight.count n =
      h.holders n + 0 + w.flight.count n + pins.count n
    omega
  exact
    { inv with
      covered := fun n => by
        rw [hdebts]
        exact inv.covered n
      grounded := fun n => by
        rw [hdebts]
        exact inv.grounded n
      settled := fun hs _ => inv.settled hs (by simp [Juncture.holding])
      lagging := fun hs l hl m _ => inv.lagging hs l hl m id
      sheltered := fun pins' doomed' hw => by
        cases hw
        exact hpins
      doomed := fun _ hw => by cases hw }

/-- Once all that a lite sweep has taken off the list is given back, its pins are counted references
in flight. -/
theorem Invariant.unpin {pins : List NodeId} (hw : w.loose = [])
    (inv : Invariant law { w with guard := some (.lite pins none) } h) :
    Invariant law (Juncture.holding { w with guard := some .plain } pins) h := by
  have hdebts : ∀ n, h.debts (Juncture.holding { w with guard := some .plain } pins) n =
      h.debts { w with guard := some (.lite pins none) } n := by
    intro n
    rw [Heap.debts_holding_append]
    show h.holders n + 0 + w.flight.count n + pins.count n =
      h.holders n + pins.count n + w.flight.count n
    omega
  exact
    { inv with
      covered := fun n => by
        rw [hdebts]
        exact inv.covered n
      grounded := fun n => by
        rw [hdebts]
        exact inv.grounded n
      settled := fun hs _ => inv.settled hs (by simp)
      lagging := fun hs l hl m _ => inv.lagging hs l hl m fun htaken =>
        htaken.elim (fun hloose => List.not_mem_nil (hw ▸ hloose)) fun hnone => by cases hnone
      sheltered := fun _ _ hw => by cases hw
      doomed := fun _ hw => by cases hw }

/-- What is pinned has storage. -/
theorem Invariant.isAllocated_of_mem_pinned (inv : Invariant law w h) (hn : n ∈ h.pinned) :
    h.isAllocated n = true := by
  unfold Heap.pinned at hn
  obtain hn | hn := List.mem_append.1 hn
  · exact inv.stacked n (List.mem_append_left _ hn)
  · unfold Heap.externalRoots at hn
    obtain ⟨s, -, hs⟩ := List.mem_flatMap.1 hn
    split_ifs at hs
    · exact (List.mem_filter.1 hs).2
    · cases hs

/-- A lite sweep pins everything that roots without a count designate. -/
theorem Invariant.uncounted_subset_pinned (inv : Invariant law w h) :
    ∀ n ∈ h.uncounted law, n ∈ h.pinned := by
  intro n hn
  have halloc := inv.stacked n hn
  unfold Heap.pinned
  refine List.mem_append.2 ((List.mem_append.1 hn).imp_right fun hn => ?_)
  cases hpinning : law.pinning with
  | false =>
    rw [hpinning] at hn
    cases hn
  | true =>
    rw [hpinning, if_pos rfl] at hn
    obtain ⟨s, hs, hn⟩ := List.mem_flatMap.1 hn
    refine List.mem_flatMap.2 ⟨s, hs, ?_⟩
    have hregistered : some s ∈ h.roots.external := by simpa using hs
    obtain ⟨source, hsource, hpins⟩ := inv.pins hpinning s hregistered
    rw [hsource, Option.any_some, if_pos hpins]
    exact List.mem_filter.2 ⟨hn, halloc⟩

/-- From now on no lite sweep may return. -/
theorem Invariant.watch (inv : Invariant law w h) :
    Invariant law { w with swept := some h.chronicle.sweeps } h :=
  { inv with swept := fun _ hl => Option.some.inj hl }

/-- From now on a lite sweep may return. -/
theorem Invariant.unwatch {swept : Option (List Nat)} (hw : w.swept = none)
    (inv : Invariant law { w with swept } h) : Invariant law w h :=
  { inv with
    swept := fun l hl => by
      rw [hw] at hl
      cases hl }

/-- When a lite sweep returns, what it has reclaimed is added to the totals. -/
theorem Invariant.tally {total : Nat} (hw : w.reclaimed = 0) (hswept : w.swept = none)
    (inv : Invariant law { w with reclaimed := total } h) :
    Invariant law w ((h.modifyStats fun s =>
      { s with liteSweeps := s.liteSweeps + 1, totalReclaimed := s.totalReclaimed + total })
        |>.modifyChronicle (·.sweep total)) :=
  { inv with
    ledger := fun hi => { inv.ledger hi with }
    accounts := fun hi =>
      have hacc := inv.accounts hi
      { hacc with
        freed := by
          rw [hw]
          exact hacc.freed
        reclaimed := by
          show h.stats.totalReclaimed + total = total + h.chronicle.sweeps.sum
          rw [hacc.reclaimed, Nat.add_comm] }
    swept := fun l hl => by
      rw [hswept] at hl
      cases hl }

namespace Collector

variable {run : Runner}

/-- Collections that are not held off start between the operations. -/
theorem guard_eq_none (inv : Invariant law w h) (hi : h.isInhibited = false) : w.guard = none := by
  have h0 : h.inhibitors = 0 := by simpa [Heap.isInhibited] using hi
  have hguards := inv.inhibitors
  unfold Juncture.guards at hguards
  split_ifs at hguards with hw
  · omega
  · simpa using hw

/-- Between the operations collections are held off by the guards of the mutator alone. -/
theorem isInhibited_eq {law' : Law} {v : Juncture} (inv : Invariant law w h)
    (inv' : Invariant law' v h') (hguard : w.guard = none) (hguard' : v.guard = none)
    (hguards : h'.guards = h.guards) : h'.isInhibited = h.isInhibited := by
  have hinhibitors : h'.inhibitors = h.inhibitors := by
    rw [inv.inhibitors, inv'.inhibitors, hguards]
    unfold Juncture.guards
    rw [hguard, hguard']
  unfold Heap.isInhibited
  rw [hinhibitors]

/-- Holding off collections around an operation that keeps the invariant keeps the invariant. -/
theorem inhibiting_spec {α : Type} {body : Act α} {Q : α → Chronicle → Prop}
    (hbody : Leads body { h with inhibitors := h.inhibitors + 1 }
      (fun a h' => Invariant law { w with guard := some .plain } h' ∧ Q a h'.chronicle)
      (Failed (fun h' => w.torn = true ∧ Invariant law { w with guard := some .plain } h')
        w.torn)) :
    Leads (inhibiting body) h
      (fun a h' => Invariant law { w with guard := none } h' ∧ Q a h'.chronicle)
      (Failed (fun h' => w.torn = true ∧ Invariant law { w with guard := none } h') w.torn) := by
  unfold inhibiting
  simp only [leads_bind, leads_update]
  exact Leads.ensuring hbody (fun a h' hpost => ⟨hpost.1.permit, hpost.2⟩)
    fun h' hpost => ⟨hpost.1, hpost.2.permit⟩

/-- A lite sweep keeps the invariant, and every failure of it is final in a heap that is not torn.
What has been returned by all lite sweeps grows by what it returns. -/
theorem liteSweep_spec (hrun : run.Keeps law w.torn w.scarred) (fuel : Nat)
    (hready : w.guard = none → w.Idle) (hswept : w.guard = none → w.swept = none)
    (inv : Invariant law w h) :
    Leads (liteSweep run fuel) h
      (fun r h' => Invariant law w h' ∧
        h'.chronicle.sweeps.sum = r + h.chronicle.sweeps.sum)
      (Failed (fun h' => w.torn = true ∧ Invariant law w h') w.torn) := by
  unfold liteSweep
  simp only [leads_bind, leads_view]
  cases hi : h.isInhibited with
  | true => exact ⟨inv, (Nat.zero_add _).symm⟩
  | false =>
    have hguard := guard_eq_none inv hi
    have hidle := hready hguard
    have hw := Juncture.eq_unwatched hguard (hswept hguard)
    rw [hw] at inv ⊢
    refine inhibiting_spec (w := { w with swept := none })
      (Q := fun r c => c.sweeps.sum = r + h.chronicle.sweeps.sum) ?_
    -- Those that its destructors ask for are held off, so no other lite sweep returns meanwhile.
    have hplain : Invariant law
        { w with guard := some .plain, swept := some h.chronicle.sweeps }
        { h with inhibitors := h.inhibitors + 1 } :=
      (Invariant.inhibit (w := { w with swept := none }) inv).watch
    simp only [leads_bind, leads_view]
    have halloc : ∀ n ∈ h.pinned, h.isAllocated n = true := fun n => inv.isAllocated_of_mem_pinned
    refine (forM_increment_spec hplain halloc fun _ _ hd => by cases hd).leads ?_
    rintro _ h₁ ⟨inv₁, hr₁⟩
    have hpins : ∀ n ∈ h₁.uncounted law, n ∈ h.pinned.reverse := fun n hn => by
      rw [hr₁.uncounted] at hn
      exact List.mem_reverse.2 (inv.uncounted_subset_pinned n hn)
    have hpinned : Invariant law
        { w with
          guard := some (.lite h.pinned.reverse none), reclaimed := 0,
          swept := some h.chronicle.sweeps } h₁ := by
      rw [← hidle.reclaimed]
      exact Invariant.pin (w := { w with swept := some h.chronicle.sweeps }) inv₁ hpins
    refine (drain_spec (w := { w with swept := some h.chronicle.sweeps }) hrun fuel 0 hpinned
      { hidle with }).mono (fun total h₂ inv₂ => ?_) fun _ h₂ he => he.mono fun hpost =>
        ⟨hpost.1, Invariant.unwatch (w := { w with guard := some .plain, swept := none }) rfl
          (Invariant.abandon hpost.1 (Invariant.unpin
            (w := { w with swept := some h.chronicle.sweeps }) hidle.loose hpost.2))⟩
    refine (forM_decrement_spec (Invariant.unpin
      (w := { w with reclaimed := total, swept := some h.chronicle.sweeps }) hidle.loose
      inv₂)).leads ?_
    rintro _ h₃ ⟨inv₃, _⟩
    have inv₄ : Invariant law
        { w with guard := some .plain, reclaimed := total, swept := none } h₃ :=
      inv₃.unwatch rfl
    simp only [leads_update, leads_pure]
    exact ⟨Invariant.tally (w := { w with guard := some .plain, swept := none }) hidle.reclaimed rfl
      { inv₄ with }, congrArg (fun l => total + l.sum) (inv₃.swept _ rfl)⟩

end Collector

end HybridHeap
