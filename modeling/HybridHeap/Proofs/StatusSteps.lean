import HybridHeap.Proofs.Safety

/-!
# Sequences of steps on status words

What any sequence of steps does to a status word: the count goes up and down by one until it sticks,
the bits that a step does not name stay as they are, and the outcomes tell exactly when the flag of
moribund nodes changes. So a collector that goes by the outcomes has on its queue exactly the nodes
that are flagged, each once: `take` is one step of such a collector, `Heap.Took` says what it does,
and `takeAll_matches` what any number of them do.
-/

namespace HybridHeap

/-- What can be done to a status word. -/
inductive StatusStep where
  | increment
  | decrement
  | insert (f : Flag)
  | erase (f : Flag)
  deriving DecidableEq

/-- The count after a step. A count that sticks stays, and where there is nothing to count down it
stays zero. -/
def StatusStep.tally (c : Nat) : StatusStep → Nat
  | increment => if c = Status.countMax then c else c + 1
  | decrement => if c = Status.countMax then c else c - 1
  | insert _ => c
  | erase _ => c

/-- A count that sticks stays whatever is done. -/
theorem StatusStep.tally_countMax (x : StatusStep) : x.tally Status.countMax = Status.countMax := by
  cases x <;> rfl

namespace Status

/-- The word after a step. Counting down leaves a word as it is if it fails. -/
def step (s : Status) : StatusStep → Status
  | .increment => s.increment.1
  | .decrement => (s.decrement?.map Prod.fst).getD s
  | .insert f => s.insert f
  | .erase f => s.erase f

/-- The word after some steps. -/
def steps (s : Status) (l : List StatusStep) : Status := l.foldl step s

variable (s : Status) {i : Nat}

/-! ## Counts -/

/-- Counting down fails exactly where there is nothing to count down. -/
theorem decrement?_eq_none_iff : s.decrement? = none ↔ s.count = 0 := by
  refine ⟨fun hnone => ?_, decrement?_of_count_eq_zero⟩
  by_contra h0
  cases hs : s.isSaturated with
  | true =>
    rw [decrement?_of_isSaturated hs] at hnone
    cases hnone
  | false =>
    obtain ⟨t, o, hsome, -⟩ := decrement?_eq hs h0
    rw [hsome] at hnone
    cases hnone

/-- A step moves the count as it is tallied. -/
theorem count_step (x : StatusStep) : (s.step x).count = x.tally s.count := by
  cases x with
  | increment =>
    show s.increment.1.count = if s.count = countMax then s.count else s.count + 1
    cases hs : s.isSaturated with
    | true => rw [increment_of_isSaturated hs, if_pos ((isSaturated_iff s).1 hs)]
    | false => rw [count_increment hs, if_neg (s.isSaturated_eq_false_iff.1 hs)]
  | decrement =>
    show ((s.decrement?.map Prod.fst).getD s).count =
      if s.count = countMax then s.count else s.count - 1
    cases hs : s.isSaturated with
    | true =>
      rw [decrement?_of_isSaturated hs, if_pos ((isSaturated_iff s).1 hs)]
      rfl
    | false =>
      rw [if_neg (s.isSaturated_eq_false_iff.1 hs)]
      by_cases h0 : s.count = 0
      · rw [decrement?_of_count_eq_zero h0]
        simp [h0]
      · obtain ⟨t, o, hsome, hcount, -⟩ := decrement?_eq hs h0
        rw [hsome, Option.map_some, Option.getD_some]
        exact Nat.eq_sub_of_add_eq hcount
  | insert f => exact count_insert s f
  | erase f => exact count_erase s f

/-- Some steps move the count as they are tallied. -/
theorem count_steps (l : List StatusStep) :
    (s.steps l).count = l.foldl StatusStep.tally s.count := by
  induction l generalizing s with
  | nil => rfl
  | cons x l ih =>
    show ((s.step x).steps l).count = l.foldl StatusStep.tally (x.tally s.count)
    rw [ih, count_step]

/-- A count that sticks does so forever. -/
theorem count_steps_of_eq_max (hs : s.count = countMax) (l : List StatusStep) :
    (s.steps l).count = countMax := by
  rw [count_steps, hs]
  induction l with
  | nil => rfl
  | cons x l ih => rwa [List.foldl_cons, StatusStep.tally_countMax]

/-! ## Bits -/

/-- Counting up changes no bit below the count but the flags of moribund and of referenced nodes. -/
theorem testBit_increment (hi : i < 8) (hm : i ≠ Flag.moribund.index)
    (hr : i ≠ Flag.referenced.index) :
    s.increment.1.word.toNat.testBit i = s.word.toNat.testBit i := by
  cases hs : s.isSaturated with
  | true => rw [increment_of_isSaturated hs]
  | false =>
    simp only [increment, hs, Bool.false_eq_true, if_false]
    rw [testBit_erase_of_ne _ hm, testBit_insert_of_ne _ hr]
    exact testBit_add_one hs hi

/-- Counting down changes no bit below the count but the flag of moribund nodes. -/
theorem testBit_decrement {t : Status} {o : Decrement} (hd : s.decrement? = some (t, o))
    (hi : i < 8) (hm : i ≠ Flag.moribund.index) :
    t.word.toNat.testBit i = s.word.toNat.testBit i := by
  have h0 := count_ne_zero_of_decrement? hd
  cases hs : s.isSaturated with
  | true =>
    rw [decrement?_of_isSaturated hs] at hd
    cases hd
    rfl
  | false =>
    simp only [decrement?, hs, Bool.false_eq_true, if_false, h0] at hd
    split_ifs at hd with horphaned
    · cases hd
      rw [testBit_insert_of_ne _ hm]
      exact testBit_sub_one h0 hi
    · cases hd
      exact testBit_sub_one h0 hi

/-! ## Outcomes -/

/-- A node is revived exactly by counting up a word that is flagged as moribund and does not
stick. -/
theorem increment_revived_iff :
    s.increment.2 = .revived ↔ s.isSaturated = false ∧ s.contains .moribund = true := by
  rw [increment_snd]
  cases s.isSaturated <;> cases s.contains .moribund <;> simp

/-- A node is orphaned exactly by counting down from one a word that is not flagged as moribund. -/
theorem decrement?_orphaned_iff :
    (∃ t, s.decrement? = some (t, .orphaned)) ↔ s.count = 1 ∧ s.contains .moribund = false := by
  cases hs : s.isSaturated with
  | true =>
    rw [decrement?_of_isSaturated hs, (isSaturated_iff s).1 hs]
    simp [countMax]
  | false =>
    by_cases h0 : s.count = 0
    · rw [decrement?_of_count_eq_zero h0]
      simp [h0]
    · obtain ⟨t, o, hsome, hcount, -, -, ho⟩ := decrement?_eq hs h0
      rw [hsome, show s.count = 1 ↔ t.count = 0 by omega, ← ho]
      simp

/-- A word that is counted down is flagged as moribund if it was before or that orphans it. -/
theorem contains_moribund_decrement {t : Status} {o : Decrement}
    (hd : s.decrement? = some (t, o)) :
    t.contains .moribund = (s.contains .moribund || decide (o = .orphaned)) := by
  cases hs : s.isSaturated with
  | true =>
    rw [decrement?_of_isSaturated hs] at hd
    cases hd
    simp
  | false =>
    obtain ⟨t', o', hsome, -, -, hm, ho⟩ := decrement?_eq hs (count_ne_zero_of_decrement? hd)
    rw [hsome] at hd
    cases hd
    rw [hm]
    cases hq : s.contains .moribund <;> simp [ho, hq]

/-- What the steps on a status word come to. -/
structure CountsExactly (s : Status) : Prop where
  /-- The count follows the steps. -/
  follows : ∀ l, (s.steps l).count = l.foldl StatusStep.tally s.count
  /-- Once it is as large as it can be, it stays so. -/
  sticks : s.count = countMax → ∀ l, (s.steps l).count = countMax
  /-- Counting down fails exactly at zero, -/
  underflow : s.decrement? = none ↔ s.count = 0
  /-- and leaves the word as it is then. -/
  unchanged : s.decrement? = none → s.step .decrement = s
  /-- Counting keeps every bit below the count but the flags of moribund and of referenced nodes:
  the other flags, and the bits that mean nothing. -/
  kept : ∀ x, x = .increment ∨ x = .decrement → ∀ i, i < 8 → i ≠ Flag.moribund.index →
    i ≠ Flag.referenced.index → (s.step x).word.toNat.testBit i = s.word.toNat.testBit i
  /-- Setting a flag sets it and keeps every other bit. -/
  inserted : ∀ f, (s.insert f).contains f = true ∧
    ∀ i, i ≠ f.index → (s.insert f).word.toNat.testBit i = s.word.toNat.testBit i
  /-- Clearing a flag clears it and keeps every other bit. -/
  erased : ∀ f, (s.erase f).contains f = false ∧
    ∀ i, i ≠ f.index → (s.erase f).word.toNat.testBit i = s.word.toNat.testBit i
  /-- A node is orphaned exactly when its count drops from one to zero and its flag is clear, -/
  orphaned : (∃ t, s.decrement? = some (t, .orphaned)) ↔
    s.count = 1 ∧ (s.step .decrement).count = 0 ∧ s.contains .moribund = false
  /-- and revived exactly when it is counted up, its count does not stick, and its flag is set. -/
  revived : s.increment.2 = .revived ↔ s.count ≠ countMax ∧ s.contains .moribund = true

/-- Every status word counts exactly. -/
theorem countsExactly : s.CountsExactly where
  follows := s.count_steps
  sticks := s.count_steps_of_eq_max
  underflow := s.decrement?_eq_none_iff
  unchanged := fun hnone => by
    unfold step
    rw [hnone]
    rfl
  kept := by
    rintro x (rfl | rfl) i hi hm hr
    · exact s.testBit_increment hi hm hr
    · unfold step
      cases hd : s.decrement? with
      | none => rfl
      | some outcome => exact s.testBit_decrement hd hi hm
  inserted := fun f => ⟨by simp, fun _ => s.testBit_insert_of_ne⟩
  erased := fun f => ⟨by simp, fun _ => s.testBit_erase_of_ne⟩
  orphaned := by
    rw [decrement?_orphaned_iff, count_step]
    refine and_congr_right fun h1 => (and_iff_right ?_).symm
    rw [h1]
    rfl
  revived := by
    rw [increment_revived_iff, isSaturated_eq_false_iff]

end Status

/-! ## The queue -/

/-- The nodes on the queue are those that are flagged as moribund, each once. -/
structure Heap.QueueMatches (h : Heap) : Prop where
  nodup : h.moribund.Nodup
  mem_iff : ∀ n, n ∈ h.moribund ↔ (h.status n).contains .moribund = true

/-- A node goes on the queue only if it is not on it, and is taken off it only if it is. -/
inductive Requeued (n : NodeId) (q : List NodeId) : List NodeId → Prop where
  | kept : Requeued n q q
  | pushed (hn : n ∉ q) : Requeued n q (n :: q)
  | removed (hn : n ∈ q) : Requeued n q (q.erase n)

namespace Requeued

variable {n m : NodeId} {q q' : List NodeId}

/-- A queue stays without duplicates. -/
theorem nodup (hr : Requeued n q q') (hq : q.Nodup) : q'.Nodup := by
  cases hr with
  | kept => exact hq
  | pushed hn => exact List.nodup_cons.2 ⟨hn, hq⟩
  | removed hn => exact hq.erase n

/-- The other nodes stay on the queue or off it. -/
theorem mem_of_ne (hr : Requeued n q q') (hm : m ≠ n) : m ∈ q' ↔ m ∈ q := by
  cases hr with
  | kept => exact Iff.rfl
  | pushed hn => simp [hm]
  | removed hn => exact List.mem_erase_of_ne hm

end Requeued

namespace Heap

variable {h h' : Heap} {n : NodeId}

/-- Whether the queue matches the flags shows from the nodes there are. -/
theorem queueMatches_iff : h.QueueMatches ↔ h.moribund.Nodup ∧
    (∀ n ∈ h.moribund, (h.status n).contains .moribund = true) ∧
    ∀ n < h.nodes.size, (h.status n).contains .moribund = true → n ∈ h.moribund := by
  constructor
  · rintro ⟨hnodup, hmem⟩
    exact ⟨hnodup, fun n => (hmem n).1, fun n _ => (hmem n).2⟩
  · rintro ⟨hnodup, hflagged, hqueued⟩
    exact ⟨hnodup, fun n => ⟨hflagged n, fun hf => hqueued n (lt_size_of_contains hf) hf⟩⟩

instance : Decidable h.QueueMatches := decidable_of_iff' _ queueMatches_iff

/-- A step has been taken at one node: its word has made it, its queue with it, and the words of
the other nodes are as they were. -/
structure Took (h : Heap) (n : NodeId) (x : StatusStep) (h' : Heap) : Prop where
  size : h'.nodes.size = h.nodes.size
  status : ∀ m, h'.status m = if m = n then (h.status n).step x else h.status m
  queue : Requeued n h.moribund h'.moribund
  flagged : n ∈ h'.moribund ↔ ((h.status n).step x).contains .moribund = true

/-- A step keeps the queue in step with the flags. -/
theorem Took.queueMatches {x : StatusStep} (ht : Took h n x h') (hq : h.QueueMatches) :
    h'.QueueMatches where
  nodup := ht.queue.nodup hq.nodup
  mem_iff := by
    intro m
    rw [ht.status]
    split_ifs with hm
    · rw [hm]
      exact ht.flagged
    · rw [ht.queue.mem_of_ne hm]
      exact hq.mem_iff m

end Heap

namespace Collector

open Act

variable {h : Heap} {n : NodeId} {l : List (NodeId × StatusStep)}

/-- Clear the flag of moribund nodes by hand, and take the node off the queue with it. -/
def unflag (n : NodeId) : Act Unit := do
  if ← Act.view fun h => (h.status n).contains .moribund then
    unqueue n
    Act.update fun h => h.setStatus n ((h.status n).erase .moribund)

/-- Take a step at a node, and see to the queue. -/
def take (n : NodeId) : StatusStep → Act Unit
  | .increment => increment n
  | .decrement => decrement n
  | .insert f =>
    if f = .moribund then makeMoribund n
    else Act.update fun h => h.setStatus n ((h.status n).insert f)
  | .erase f =>
    if f = .moribund then unflag n
    else Act.update fun h => h.setStatus n ((h.status n).erase f)

/-- The heap after some steps at nodes, each of which is taken even if one before has failed. -/
def takeAll (l : List (NodeId × StatusStep)) (h : Heap) : Heap :=
  l.foldl (fun h x => Act.after (take x.1 x.2 h)) h

/-- The steps that are taken at one node. -/
def stepsAt (n : NodeId) (l : List (NodeId × StatusStep)) : List StatusStep :=
  l.filterMap fun x => if x.1 = n then some x.2 else none

/-- A new word for a node, and a queue to go with it, take the step that the word has made. -/
theorem took_setStatus {x : StatusStep} {s : Status} {q : List NodeId} (hn : n < h.nodes.size)
    (hs : (h.status n).step x = s) (hq : Requeued n h.moribund q)
    (hflagged : n ∈ q ↔ s.contains .moribund = true) :
    h.Took n x { h.setStatus n s with moribund := q } where
  size := h.size_nodes_setStatus n s
  status := by
    rw [hs]
    exact Heap.status_setStatus_with hn s q
  queue := hq
  flagged := by rwa [hs]

/-- A step that keeps the word has been taken where no node and not the queue has changed. -/
theorem took_of_eq {x : StatusStep} {k : Heap} (hq : h.QueueMatches) (hnodes : k.nodes = h.nodes)
    (hqueue : k.moribund = h.moribund) (hs : (h.status n).step x = h.status n) :
    h.Took n x k where
  size := congrArg Array.size hnodes
  status := by
    intro m
    have hsame : k.status m = h.status m := by
      unfold Heap.status
      rw [hnodes]
    rw [hsame]
    split_ifs with hm
    · rw [hm, hs]
    · rfl
  queue := hqueue ▸ .kept
  flagged := by
    rw [hs, hqueue]
    exact hq.mem_iff n

/-- Counting up takes its step. -/
theorem increment_took (hq : h.QueueMatches) (hn : n < h.nodes.size) :
    Returns (increment n) h fun _ h' => h.Took n .increment h' := by
  have hflag := (h.status n).contains_moribund_increment
  have hmem := hq.mem_iff n
  refine (increment_leads n).mono ?_ ?_
  · rintro _ _ rfl
    -- What is revived was flagged, so it is on the queue and can be taken off.
    split_ifs with hrevived
    · rw [hrevived, decide_eq_false (not_not_intro rfl), Bool.and_false] at hflag
      have hqueued := hmem.2 (Status.contains_moribund_of_revived hrevived)
      refine took_setStatus hn rfl (.removed hqueued) (iff_of_false (hq.nodup.not_mem_erase) ?_)
      simp [hflag]
    · rw [decide_eq_true hrevived, Bool.and_true] at hflag
      exact took_setStatus hn rfl .kept (hflag ▸ hmem)
  · rintro _ _ ⟨hrevived, hunqueued⟩
    exact hunqueued (hmem.2 (Status.contains_moribund_of_revived hrevived))

/-- Counting down takes its step, or fails where there is nothing to count down, which changes no
node and not the queue. -/
theorem decrement_took (hq : h.QueueMatches) (hn : n < h.nodes.size) :
    Leads (decrement n) h (fun _ h' => (h.status n).count ≠ 0 ∧ h.Took n .decrement h')
      fun e h' => e = .fatal (.underflow (h.kind n) n) ∧ (h.status n).count = 0 ∧
        h'.nodes = h.nodes ∧ h'.moribund = h.moribund := by
  have hmem := hq.mem_iff n
  cases hd : (h.status n).decrement? with
  | none =>
    unfold decrement
    simp only [leads_bind, leads_view, hd, leads_fatal]
    exact ⟨trivial, (h.status n).decrement?_eq_none_iff.1 hd, rfl, rfl⟩
  | some outcome =>
    obtain ⟨s, o⟩ := outcome
    have hstep : (h.status n).step .decrement = s := by
      show ((h.status n).decrement?.map Prod.fst).getD _ = s
      rw [hd]
      rfl
    have hflag := (h.status n).contains_moribund_decrement hd
    refine (decrement_leads hd).leads ?_
    rintro _ _ rfl
    refine ⟨Status.count_ne_zero_of_decrement? hd, ?_⟩
    -- What is orphaned was not flagged, so it is not on the queue yet.
    split_ifs with horphaned
    · rw [horphaned, decide_eq_true rfl, Bool.or_true] at hflag
      have hclear := ((h.status n).decrement?_orphaned_iff.1 ⟨s, horphaned ▸ hd⟩).2
      refine took_setStatus hn hstep (.pushed fun hqueued => ?_)
        (iff_of_true List.mem_cons_self hflag)
      rw [hmem.1 hqueued] at hclear
      cases hclear
    · rw [decide_eq_false horphaned, Bool.or_false] at hflag
      exact took_setStatus hn hstep .kept (hflag ▸ hmem)

/-- Setting the flag of moribund nodes by hand takes its step. -/
theorem makeMoribund_took (hq : h.QueueMatches) (hn : n < h.nodes.size) :
    Returns (makeMoribund n) h fun _ h' => h.Took n (.insert .moribund) h' := by
  have hmem := hq.mem_iff n
  unfold makeMoribund
  simp only [Returns, leads_bind, leads_view]
  cases hflag : (h.status n).contains .moribund with
  | true => exact took_of_eq hq rfl rfl (Status.insert_of_contains hflag)
  | false =>
    rw [hflag] at hmem
    exact took_setStatus hn rfl (.pushed (by simp [hmem])) (by simp)

/-- So does clearing it by hand. -/
theorem unflag_took (hq : h.QueueMatches) (hn : n < h.nodes.size) :
    Returns (unflag n) h fun _ h' => h.Took n (.erase .moribund) h' := by
  have hmem := hq.mem_iff n
  unfold unflag unqueue
  simp only [Returns, leads_bind, leads_view]
  cases hflag : (h.status n).contains .moribund with
  | true =>
    have hqueued := hmem.2 hflag
    rw [if_pos rfl]
    simp only [leads_bind, leads_view, List.contains_iff_mem.2 hqueued, if_true, leads_update]
    exact took_setStatus hn rfl (.removed hqueued)
      (iff_of_false hq.nodup.not_mem_erase (by simp))
  | false => exact took_of_eq hq rfl rfl (Status.erase_of_not_contains hflag)

/-- Every step is taken, with what goes with it on the queue. Only counting down can fail, exactly
where there is nothing to count down, and changes no node and not the queue then. -/
theorem take_took (hq : h.QueueMatches) (hn : n < h.nodes.size) (x : StatusStep) :
    Leads (take n x) h
      (fun _ h' => ¬ (x = .decrement ∧ (h.status n).count = 0) ∧ h.Took n x h')
      fun e h' => e = .fatal (.underflow (h.kind n) n) ∧
        (x = .decrement ∧ (h.status n).count = 0) ∧
        h'.nodes = h.nodes ∧ h'.moribund = h.moribund := by
  -- The other flags are no concern of the queue.
  have hother : ∀ {s : Status}, (h.status n).step x = s →
      s.contains .moribund = (h.status n).contains .moribund → h.Took n x (h.setStatus n s) :=
    fun hs hsame => took_setStatus (q := h.moribund) hn hs .kept (hsame ▸ hq.mem_iff n)
  cases x with
  | increment => exact (increment_took hq hn).leads fun _ _ ht => ⟨by simp, ht⟩
  | decrement =>
    exact (decrement_took hq hn).mono (fun _ _ ⟨h0, ht⟩ => ⟨fun hx => h0 hx.2, ht⟩)
      fun _ _ ⟨he, h0, hsame⟩ => ⟨he, ⟨rfl, h0⟩, hsame⟩
  | insert f =>
    simp only [take]
    split_ifs with hf
    · subst hf
      exact (makeMoribund_took hq hn).leads fun _ _ ht => ⟨by simp, ht⟩
    · exact ⟨by simp, hother rfl (by simp [hf])⟩
  | erase f =>
    simp only [take]
    split_ifs with hf
    · subst hf
      exact (unflag_took hq hn).leads fun _ _ ht => ⟨by simp, ht⟩
    · exact ⟨by simp, hother rfl (by simp [Ne.symm hf])⟩

/-- After any number of steps at nodes, those on the queue are those that are flagged, and each
node's word has taken the steps at it. -/
theorem takeAll_matches (hq : h.QueueMatches) (hl : ∀ x ∈ l, x.1 < h.nodes.size) :
    (takeAll l h).QueueMatches ∧ (takeAll l h).nodes.size = h.nodes.size ∧
      ∀ m, (takeAll l h).status m = (h.status m).steps (stepsAt m l) := by
  induction l generalizing h with
  | nil => exact ⟨hq, rfl, fun _ => rfl⟩
  | cons x l ih =>
    obtain ⟨n, x⟩ := x
    -- The step has been taken even if it has failed, since it keeps the word then.
    have htook : h.Took n x (after (take n x h)) :=
      ((take_took hq (hl _ List.mem_cons_self) x).mono (fun _ _ ht => ht.2)
        fun _ _ ⟨_, ⟨hx, h0⟩, hnodes, hqueue⟩ => took_of_eq hq hnodes hqueue (hx ▸
          (h.status n).countsExactly.unchanged (Status.decrement?_of_count_eq_zero h0))).after
    obtain ⟨hq', hsize, hstatus⟩ := ih (htook.queueMatches hq) fun y hy => by
      rw [htook.size]
      exact hl y (List.mem_cons_of_mem _ hy)
    refine ⟨hq', hsize.trans htook.size, fun m => (hstatus m).trans ?_⟩
    rw [htook.status]
    unfold stepsAt
    rw [List.filterMap_cons]
    split_ifs with hmn hnm hnm
    · rw [hmn]
      rfl
    · exact absurd hmn.symm hnm
    · exact absurd hnm.symm hmn
    · rfl

/-- The node queued last is taken off the queue, when the queue is drained, just as its flag is
cleared by hand. -/
theorem unflag_top {rest : List NodeId} (hqueue : h.moribund = n :: rest)
    (hflag : (h.status n).contains .moribund = true) : unflag n h = .ok () (h.popped n) := by
  have hleads : Returns (unflag n) h fun _ h' => h' = h.popped n := by
    unfold unflag unqueue
    simp only [Returns, leads_bind, leads_view, hflag, if_true, leads_update,
      List.contains_iff_mem.2 (hqueue ▸ List.mem_cons_self : n ∈ h.moribund)]
    show Heap.setStatus { h with moribund := h.moribund.erase n } n _ = _
    unfold Heap.popped
    rw [hqueue, List.erase_cons_head, List.tail_cons]
    rfl
  obtain ⟨_, _, hrun, rfl⟩ := returns_iff.1 hleads
  exact hrun

/-- A status word counts exactly, whatever steps are taken on it. So a collector that queues what is
orphaned, takes off the queue what is revived, and queues or takes off a node whenever it sets or
clears its flag by hand has on its queue exactly the nodes that are flagged, after any steps at any
nodes. It never queues a node that is queued or takes off one that is not, and it fails only by
counting down from zero, which changes no node and not the queue. -/
theorem status_counts_exactly :
    (∀ s : Status, s.CountsExactly) ∧
    ∀ (h k : Heap) (l : List (NodeId × StatusStep)), h.QueueMatches →
      (∀ x ∈ l, x.1 < h.nodes.size) → takeAll l h = k →
      k.QueueMatches ∧ (∀ n, k.status n = (h.status n).steps (stepsAt n l)) ∧
      ∀ n < h.nodes.size, ∀ x : StatusStep, Leads (take n x) k
        (fun _ k' => ¬ (x = .decrement ∧ (k.status n).count = 0) ∧
          Requeued n k.moribund k'.moribund)
        fun e k' => e = .fatal (.underflow (k.kind n) n) ∧
          (x = .decrement ∧ (k.status n).count = 0) ∧
          k'.nodes = k.nodes ∧ k'.moribund = k.moribund := by
  refine ⟨Status.countsExactly, ?_⟩
  rintro h _ l hq hl rfl
  obtain ⟨hq', hsize, hstatus⟩ := takeAll_matches hq hl
  refine ⟨hq', hstatus, fun n hn x => ?_⟩
  exact (take_took hq' (hsize ▸ hn) x).mono (fun _ _ ⟨hx, ht⟩ => ⟨hx, ht.queue⟩)
    fun _ _ hfail => hfail

/-- A node that a root holds is released, queued, referenced again and queued by hand; it is
released once more without being queued again. -/
theorem status_counts_exactly_root :
    ∃ h k : Heap, h.moribund = [] ∧ (h.status 0).count = 1 ∧
      takeAll [(0, .decrement), (0, .increment), (0, .insert .moribund), (0, .decrement)] h = k ∧
      k.QueueMatches ∧ k.moribund = [0] ∧ (k.status 0).count = 0 := by
  let l : List (NodeId × StatusStep) :=
    [(0, .decrement), (0, .increment), (0, .insert .moribund), (0, .decrement)]
  have hplay : ((Mutator.play .tidying [.allocate (.root "a") .link [] none]).any fun h =>
      h.QueueMatches ∧ (∀ x ∈ l, x.1 < h.nodes.size) ∧ h.moribund = [] ∧ (h.status 0).count = 1 ∧
        (takeAll l h).moribund = [0]) = true := by
    decide +kernel
  obtain ⟨h, -, hfacts⟩ := (Option.any_eq_true _ _).1 hplay
  obtain ⟨hq, hl, hempty, hone, hqueued⟩ := of_decide_eq_true hfacts
  obtain ⟨hcounts, hruns⟩ := status_counts_exactly
  obtain ⟨hq', hstatus, -⟩ := hruns h _ l hq hl rfl
  refine ⟨h, _, hempty, hone, rfl, hq', hqueued, ?_⟩
  rw [hstatus, (hcounts (h.status 0)).follows, hone]
  decide

end Collector

end HybridHeap
