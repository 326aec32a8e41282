import HybridHeap.Proofs.Mirroring

/-!
# When collections run does not matter

To a mutator that roots what it uses it makes no difference when collections run. Take a script that
neither makes weak references nor registers root sources, and whose payloads have no destructors and
are not borrowed. Suppose that every step succeeds in a heap in which nothing is ever collected, and
that at every allocation in that run the kids are reachable, as is every node there that a later
step names. Then every step succeeds whatever the settings, the clock, and whether or not allocation
starts full collections, as long as the trigger always fits in a word; and after every step the same
payloads are reachable.
-/

namespace HybridHeap

open Collector Act

/-- A collector that never collects: its mutator has lost a guard that holds off collections. -/
def Heap.still : Heap :=
  { Heap.start .standard none none fun _ => 0 with
    inhibitors := 1
    lost := [(.inhibitor, 1)] }

namespace Mutator

variable {fuel depth : Nat} {script : Program} {r h k : Heap} {n : NodeId} {step : Step}

/-! ## Runs in which every step succeeds -/

/-- Any step may be performed, and any failure ends the run. -/
def Terms.strict : Terms := { objection := fun _ _ => none, ends := fun _ => true }

/-- Every step of the script succeeds in turn, which leads from `h` to `k`. -/
def Performs (fuel depth : Nat) (h : Heap) (script : Program) (k : Heap) : Prop :=
  ∃ answers, runNested .strict fuel depth script h = .ok answers k

/-- A step that is answered on strict terms has been performed. -/
theorem answer_strict {run : Runner} {a : Answer} :
    answer .strict run fuel step h = .ok a k ↔
      ∃ reply l, perform run fuel step { h with events := [] } = .ok reply l ∧
        a = .mk reply l.summary l.events.reverse ∧ k = { l with events := h.events } := by
  unfold answer permit replyOf
  simp only [bind, EStateM.bind, view, update, Terms.strict, if_true, pure, EStateM.pure]
  cases perform run fuel step { h with events := [] } with
  | ok reply l =>
    constructor
    · rintro ⟨⟩
      exact ⟨reply, l, rfl, rfl, rfl⟩
    · rintro ⟨_, _, ⟨⟩, rfl, rfl⟩
      rfl
  | error e l => simp

/-- A step that fails on strict terms ends the run with its failure. -/
theorem answer_strict_error {run : Runner} {e : Failure} {l : Heap}
    (hstep : perform run fuel step { h with events := [] } = .error e l) :
    answer .strict run fuel step h = .error e l := by
  unfold answer permit replyOf
  simp only [bind, EStateM.bind, view, update, Terms.strict, if_true, pure, EStateM.pure, hstep]

/-- No step at all leads nowhere else. -/
theorem performs_nil : Performs fuel (depth + 1) h [] k ↔ k = h := by
  constructor
  · rintro ⟨_, ⟨⟩⟩
    rfl
  · rintro rfl
    exact ⟨[], rfl⟩

/-- A script and one step more. -/
theorem performs_concat {done : Program} :
    Performs fuel (depth + 1) h (done ++ [step]) k ↔
      ∃ l, Performs fuel (depth + 1) h done l ∧ ∃ reply l',
        perform (runNested .strict fuel depth) fuel step { l with events := [] } = .ok reply l' ∧
          k = { l' with events := l.events } := by
  unfold Performs runNested
  simp only [List.mapM_append, List.mapM_cons, List.mapM_nil]
  constructor
  · rintro ⟨answers, hrun⟩
    obtain ⟨as, l, hdone, hrest⟩ := bind_eq_ok.1 hrun
    obtain ⟨bs, l₁, hlast, hpure⟩ := bind_eq_ok.1 hrest
    cases hpure
    obtain ⟨a, l₂, hanswer, hpure⟩ := bind_eq_ok.1 hlast
    cases hpure
    obtain ⟨reply, l', hstep, -, rfl⟩ := answer_strict.1 hanswer
    exact ⟨l, ⟨as, hdone⟩, reply, l', hstep, rfl⟩
  · rintro ⟨l, ⟨as, hdone⟩, reply, l', hstep, rfl⟩
    obtain ⟨a, hanswer⟩ : ∃ a, answer .strict (runNested .strict fuel depth) fuel step l =
        .ok a { l' with events := l.events } := ⟨_, answer_strict.2 ⟨reply, l', hstep, rfl, rfl⟩⟩
    refine ⟨as ++ [a], bind_eq_ok.2 ⟨as, l, hdone, ?_⟩⟩
    exact bind_eq_ok.2 ⟨[a], _, bind_eq_ok.2 ⟨a, _, hanswer, rfl⟩, rfl⟩

/-- A script whose steps all succeed does so up to any of them. -/
theorem Performs.of_append {done rest : Program}
    (hscript : Performs fuel (depth + 1) h (done ++ rest) k) :
    ∃ l, Performs fuel (depth + 1) h done l := by
  obtain ⟨answers, hrun⟩ := hscript
  unfold runNested at hrun
  rw [List.mapM_append] at hrun
  obtain ⟨as, l, hdone, -⟩ := bind_eq_ok.1 hrun
  exact ⟨l, as, hdone⟩

/-- A step that fails ends the run of a script with its failure. -/
theorem runNested_strict_error {done rest : Program} {e : Failure} {l : Heap}
    (hdone : Performs fuel (depth + 1) h done k)
    (hstep : perform (runNested .strict fuel depth) fuel step { k with events := [] } =
      .error e l) :
    runNested .strict fuel (depth + 1) (done ++ step :: rest) h = .error e l := by
  obtain ⟨as, hdone⟩ := hdone
  unfold runNested at hdone ⊢
  rw [List.mapM_append, List.mapM_cons]
  simp only [bind, EStateM.bind, hdone, answer_strict_error hstep]

/-! ## Policies -/

/-- What decides when collections run: the settings, whether allocation starts full collections, and
the headroom that the clock lets each of them earn. -/
structure Policy where
  settings : Settings
  enabled : Bool
  headroom : Nat → Nat

/-- A collector that follows a policy, over memory without a limit that holds back what the settings
say. -/
def Policy.start (p : Policy) : Heap :=
  { Heap.start p.settings none p.settings.quarantine p.headroom with enabled := p.enabled }

/-- A run of the script under the policy does not end because the trigger does not fit in a word. -/
def Policy.Fits (p : Policy) (fuel depth : Nat) (script : Program) : Prop :=
  ∀ k, runNested .strict fuel depth script p.start ≠ .error .overflow k

/-- Whatever node a step of the script from `done` on names, directly or through a handle, is one of
the given nodes, if nothing is collected. -/
def NamesWithin (fuel depth : Nat) (T : Set NodeId) (done rest : Program) : Prop :=
  ∀ mid step later r, rest = mid ++ step :: later →
    Performs fuel depth .still (done ++ mid) r → ∀ n ∈ r.named step, n ∈ T

/-- The first step names one of the given nodes. -/
theorem NamesWithin.head {T : Set NodeId} {done rest : Program}
    (hnames : NamesWithin fuel depth T done (step :: rest))
    (hdone : Performs fuel depth .still done r) : ∀ n ∈ r.named step, n ∈ T :=
  hnames [] step rest r rfl (by rwa [List.append_nil])

/-- So do the steps after the first. -/
theorem NamesWithin.tail {T : Set NodeId} {done rest : Program}
    (hnames : NamesWithin fuel depth T done (step :: rest)) :
    NamesWithin fuel depth T (done ++ [step]) rest := by
  intro mid step' later r hmid hperforms
  rw [List.append_assoc, List.singleton_append] at hperforms
  exact hnames (step :: mid) step' later r (by rw [hmid, List.cons_append]) hperforms

/-- The mutator roots what it uses, in a run in which nothing is collected: at every allocation the
kids are reachable, and so is every node there that a later step names, directly or through a
handle. -/
def Rooted (fuel depth : Nat) (script : Program) : Prop :=
  ∀ done form kind kids hook later r, script = done ++ .allocate form kind kids hook :: later →
    Performs fuel depth .still done r →
    (∀ n ∈ kids, r.Reach n) ∧
      NamesWithin fuel depth {n | n < r.nodes.size → r.Reach n}
        (done ++ [.allocate form kind kids hook]) later

/-- At the start every policy mirrors the collector that never collects. -/
theorem mirrors_start (p : Policy) : Mirrors Set.univ 0 .still p.start where
  here := rfl
  there := rfl
  kind := rfl
  roots := rfl
  handles := rfl
  dying := rfl
  attached := fun n _ hn => absurd hn (Nat.not_lt_zero n)
  payload := fun _ _ => rfl
  within :=
    { explicit := fun n _ => Set.mem_univ n
      stack := fun n _ => Set.mem_univ n
      protect := fun n _ => Set.mem_univ n
      nodeStack := fun n _ => Set.mem_univ n
      weak := rfl
      external := rfl }
  closed := fun _ _ _ _ m _ => Set.mem_univ m
  ordinary := fun _ hx => (List.not_mem_nil hx).elim
  simple := fun _ _ hp => by cases hp
  orderly := fun _ hn => by cases hn
  limit := by
    show (Memory.Allocator.new none p.settings.quarantine).assistOnly.store.limit = none
    cases p.settings.quarantine <;> rfl
  inhibited := rfl

/-- An allocation that succeeds where nothing is collected, with kids that are reachable, succeeds
whatever collections are due, unless the trigger does not fit in a word. -/
theorem allocate_returns {T : Set NodeId} {s : Nat} {form : AllocForm} {kind : Kind}
    {kids : List NodeId} {reply : Reply} {r' : Heap} (hm : Mirrors T s r h)
    (inv : Invariant .tidying .rest h) (hkids : ∀ n ∈ kids, r.Reach n) (hs : 2 * (s + 1) < fuel)
    (hok : perform (runNested .strict fuel (depth + 1)) fuel (.allocate form kind kids none) r =
      .ok reply r')
    (hfits : ∀ k, perform (runNested .strict fuel (depth + 1)) fuel
      (.allocate form kind kids none) h ≠ .error .overflow k) :
    Returns (perform (runNested .strict fuel (depth + 1)) fuel (.allocate form kind kids none)) h
      fun _ h' => Mirrors r.secured (s + 1) r' h' ∧ Invariant .tidying .rest h' := by
  have hidle : Runner.Idle (runNested .strict fuel (depth + 1)) := runNested_idle .strict fuel depth
  rw [← hm.there] at hs
  have htracks : Tracks (· = .overflow)
      (perform (runNested .strict fuel (depth + 1)) fuel (.allocate form kind kids none)) r h
      fun _ r' h' => Mirrors r.secured (s + 1) r' h' ∧ Invariant .tidying .rest h' :=
    .map (tracks_allocate hidle hm rfl inv hkids hs)
  exact ((htracks reply r' hok).imp fun _ _ hpost => hpost.2).returns hfits

/-- A step that succeeds where nothing is collected succeeds in a heap that mirrors that one, and
leaves a mirror of what it leaves there on the nodes that the rest of the script may name. -/
theorem step_mirrors {T : Set NodeId} {s : Nat} {done rest : Program} {reply : Reply} {r' : Heap}
    (hm : Mirrors T s r h) (inv : Invariant .tidying .rest h) (hplain : step.isPlain = true)
    (hs : 2 * (s + 1) < fuel) (hdone : Performs fuel (depth + 2) .still done r)
    (hnames : NamesWithin fuel (depth + 2) T done (step :: rest))
    (hrooted : ∀ form kind kids hook, step = .allocate form kind kids hook →
      (∀ n ∈ kids, r.Reach n) ∧ NamesWithin fuel (depth + 2) r.secured (done ++ [step]) rest)
    (hok : perform (runNested .strict fuel (depth + 1)) fuel step { r with events := [] } =
      .ok reply r')
    (hfits : ∀ k, perform (runNested .strict fuel (depth + 1)) fuel step
      { h with events := [] } ≠ .error .overflow k) :
    Returns (perform (runNested .strict fuel (depth + 1)) fuel step) { h with events := [] }
      fun _ h' => ∃ T' s', Mirrors T' s' r' h' ∧ s' ≤ s + 1 ∧ Invariant .tidying .rest h' ∧
        NamesWithin fuel (depth + 2) T' (done ++ [step]) rest := by
  have hm₀ : Mirrors T s { r with events := [] } { h with events := [] } := { hm with }
  have inv₀ : Invariant .tidying .rest { h with events := [] } := { inv with }
  -- Only an allocation collects, which leaves the heaps to agree on fewer nodes than before.
  by_cases hkind : ∃ form kind kids hook, step = .allocate form kind kids hook
  · obtain ⟨form, kind, kids, hook, rfl⟩ := hkind
    obtain rfl : hook = none := Option.isNone_iff_eq_none.1 hplain
    obtain ⟨hkids, hlater⟩ := hrooted form kind kids none rfl
    have hreach : ∀ n, r.Reach n ↔ Heap.Reach { r with events := [] } n := fun n =>
      Heap.Reach.congr rfl rfl rfl
    have hsecured : Heap.secured { r with events := [] } = r.secured :=
      Heap.secured_congr rfl hreach
    refine (allocate_returns hm₀ inv₀ (fun n hn => (hreach n).1 (hkids n hn)) hs hok hfits).mono ?_
    rintro _ h' ⟨hm', inv'⟩
    rw [hsecured] at hm'
    exact ⟨r.secured, s + 1, hm', Nat.le_refl _, inv', hlater⟩
  · have hstep : ∀ form kind kids hook, step ≠ .allocate form kind kids hook :=
      fun form kind kids hook heq => hkind ⟨form, kind, kids, hook, heq⟩
    have hnamed : ∀ n ∈ r.named step, n ∈ T := hnames.head hdone
    refine (perform_returns hm₀ inv₀ hplain hstep hnamed hok).mono ?_
    rintro _ h' ⟨hm', inv'⟩
    exact ⟨T, s, hm', Nat.le_succ s, inv', hnames.tail⟩

/-- A run under a policy keeps up with the run in which nothing is collected, on the nodes that the
rest of the script may name. -/
theorem exists_mirrors {p : Policy} {done rest : Program}
    (hplain : ∀ step ∈ script, step.isPlain = true) (hrooted : Rooted fuel (depth + 2) script)
    (hfits : p.Fits fuel (depth + 2) script) (hfuel : 2 * script.length < fuel)
    (hscript : script = done ++ rest) (hdone : Performs fuel (depth + 2) .still done r) :
    ∃ h T s, Performs fuel (depth + 2) p.start done h ∧ Mirrors T s r h ∧ s ≤ done.length ∧
      Invariant .tidying .rest h ∧ NamesWithin fuel (depth + 2) T done rest := by
  -- Step by step from the front. What the steps ahead name lies within the nodes on which the heaps
  -- agree, which an allocation cuts down to what was reachable before it and what is new.
  induction done using List.reverseRecOn generalizing rest r with
  | nil =>
    rw [performs_nil.1 hdone]
    have inv : Invariant .tidying .rest p.start :=
      { Invariant.start .tidying p.settings none p.settings.quarantine p.headroom with }
    exact ⟨p.start, Set.univ, 0, performs_nil.2 rfl, mirrors_start p, Nat.le_refl 0, inv,
      fun _ _ _ _ _ _ n _ => Set.mem_univ n⟩
  | append_singleton done step ih =>
    have hsplit : script = done ++ step :: rest := by
      rw [hscript, List.append_assoc, List.singleton_append]
    obtain ⟨r₀, hdone₀, reply, r₁, hstep, rfl⟩ := performs_concat.1 hdone
    obtain ⟨h₀, T, s, hrun, hm, hs, inv, hnames⟩ := ih hsplit hdone₀
    have hmem : step ∈ script := by
      rw [hsplit]
      exact List.mem_append_right _ List.mem_cons_self
    -- The fuel has to cover all nodes, and no step adds more than one.
    have hroom : 2 * (s + 1) < fuel := by
      have hlength := congrArg List.length hsplit
      rw [List.length_append, List.length_cons] at hlength
      omega
    have hreturns := step_mirrors hm inv (hplain step hmem) hroom hdone₀ hnames
      (fun form kind kids hook heq => by
        subst heq
        exact hrooted done form kind kids hook rest r₀ hsplit hdone₀)
      hstep fun k herror => hfits k (hsplit ▸ runNested_strict_error hrun herror)
    obtain ⟨reply', h₁, hstep', T', s', hm', hs', inv', hnames'⟩ := returns_iff.1 hreturns
    refine ⟨{ h₁ with events := h₀.events }, T', s',
      performs_concat.2 ⟨h₀, hrun, reply', h₁, hstep', rfl⟩, { hm' with }, ?_, { inv' with },
      hnames'⟩
    rw [List.length_append, List.length_singleton]
    omega

/-! ## Two policies -/

/-- Two heaps with the same roots and handles in which the same is reachable and attached, with the
same payloads. -/
structure SameGraph (h k : Heap) : Prop where
  roots : k.roots = h.roots
  handles : k.handles = h.handles
  kind : k.kind = h.kind
  reach : ∀ n, k.Reach n ↔ h.Reach n
  payload : ∀ n, h.Reach n → k.payload? n = h.payload? n
  attached : ∀ n, h.Reach n → h.Attached n ∧ k.Attached n

/-- Two heaps that mirror the same one have the same graph. -/
theorem SameGraph.of_mirrors {T U : Set NodeId} {s t : Nat} {w v : Juncture} {law : Law}
    (hm : Mirrors T s r h) (hm' : Mirrors U t r k) (inv : Invariant law w h)
    (inv' : Invariant law v k) : SameGraph h k where
  roots := hm'.roots.trans hm.roots.symm
  handles := hm'.handles.trans hm.handles.symm
  kind := hm'.kind.trans hm.kind.symm
  reach := fun n => hm'.reach_iff.trans hm.reach_iff.symm
  payload := fun n hn => by
    have hn := hm.reach_iff.1 hn
    rw [hm.payload n (hm.mem_of_reach hn), hm'.payload n (hm'.mem_of_reach hn)]
  attached := fun n hn => by
    have hn' : k.Reach n := hm'.reach_iff.2 (hm.reach_iff.1 hn)
    exact ⟨(hm.plain inv).attached n hn, (hm'.plain inv').attached n hn'⟩

/-- When collections run is invisible to a mutator that roots what it uses: under any two policies
every step of the script succeeds, after every step the same is reachable with the same payloads,
and the nodes that a step names are attached when it is taken. -/
theorem policies_agree {p q : Policy} (hplain : ∀ step ∈ script, step.isPlain = true)
    (hsound : ∃ r, Performs fuel depth .still script r) (hrooted : Rooted fuel depth script)
    (hp : p.Fits fuel depth script) (hq : q.Fits fuel depth script) (hdepth : 1 < depth)
    (hfuel : 2 * script.length < fuel) :
    ∀ done rest, script = done ++ rest → ∃ h k,
      Performs fuel depth p.start done h ∧ Performs fuel depth q.start done k ∧ SameGraph h k ∧
        ∀ step ∈ rest.head?, ∀ n ∈ h.named step, n < h.nodes.size →
          h.Attached n ∧ k.Attached n := by
  obtain ⟨depth, rfl⟩ : ∃ d, depth = d + 2 := ⟨depth - 2, by omega⟩
  intro done rest hscript
  obtain ⟨_, hall⟩ := hsound
  obtain ⟨r, hdone⟩ := Performs.of_append (hscript ▸ hall)
  -- The two runs are compared by way of the one in which nothing is collected.
  obtain ⟨h, T, s, hrun, hm, -, inv, hnames⟩ :=
    exists_mirrors hplain hrooted hp hfuel hscript hdone
  obtain ⟨k, U, t, hrun', hm', -, inv', hnames'⟩ :=
    exists_mirrors hplain hrooted hq hfuel hscript hdone
  refine ⟨h, k, hrun, hrun', .of_mirrors hm hm' inv inv', fun step hstep n hn hlt => ?_⟩
  obtain ⟨later, rfl⟩ : ∃ later, rest = step :: later := by
    cases rest with
    | nil => cases hstep
    | cons first later =>
      cases hstep
      exact ⟨later, rfl⟩
  have hnamed : n ∈ r.named step := by
    unfold Heap.named Heap.target? at hn ⊢
    rwa [hm.handles] at hn
  refine ⟨hm.attached n (hnames.head hdone n hnamed) hlt,
    hm'.attached n (hnames'.head hdone n hnamed) ?_⟩
  rw [hm'.size, ← hm.size]
  exact hlt

/-- Whether every step of the script succeeds and leads to a heap for which `P` holds. -/
def succeeds (fuel depth : Nat) (h : Heap) (script : Program) (P : Heap → Bool) : Bool :=
  match runNested .strict fuel depth script h with
  | .ok _ k => P k
  | .error _ _ => false

/-- What a script was checked to lead to it leads to. -/
theorem Performs.of_succeeds {P : Heap → Bool} (hrun : succeeds fuel depth h script P = true)
    (hk : Performs fuel depth h script k) : P k = true := by
  obtain ⟨answers, hk⟩ := hk
  unfold succeeds at hrun
  rw [hk] at hrun
  exact hrun

/-- A script that was checked to succeed leads somewhere, and to no failure. -/
theorem performs_of_succeeds {P : Heap → Bool} (hrun : succeeds fuel depth h script P = true) :
    (∃ k, Performs fuel depth h script k) ∧
      ∀ e k, runNested .strict fuel depth script h ≠ .error e k := by
  unfold succeeds at hrun
  cases hk : runNested .strict fuel depth script h with
  | ok answers k => exact ⟨⟨k, answers, hk⟩, fun e k' heq => by cases heq⟩
  | error e k =>
    rw [hk] at hrun
    cases hrun

/-- If an allocation comes next, whether its kids are explicit roots, and so is whatever node is
there that is named later, and whether no handle is used later. -/
def rootsNext (rest : Program) (r : Heap) : Bool :=
  match rest with
  | .allocate _ _ kids _ :: later =>
    kids.all r.roots.explicit.toList.contains && later.all fun step =>
      step.names.isEmpty && step.nodes.all fun n =>
        decide (r.nodes.size ≤ n) || r.roots.explicit.toList.contains n
  | _ => true

/-- A mutator that keeps explicit roots on all it names roots what it uses. -/
theorem Rooted.of_rootsNext
    (hcheck : ∀ i < script.length,
      succeeds fuel depth .still (script.take i) (rootsNext (script.drop i)) = true) :
    Rooted fuel depth script := by
  intro done form kind kids hook later r hscript hdone
  have hroot : ∀ n, r.roots.explicit.toList.contains n = true → r.Reach n := fun n hn =>
    .root (List.mem_append_left _ (List.mem_append_left _ (List.contains_iff_mem.1 hn)))
  have hlt : done.length < script.length := by
    rw [hscript, List.length_append, List.length_cons]
    omega
  have hnext := hcheck done.length hlt
  rw [hscript, List.take_left, List.drop_left] at hnext
  have hnext := Performs.of_succeeds hnext hdone
  simp only [rootsNext, Bool.and_eq_true, List.all_eq_true] at hnext
  obtain ⟨hkids, hlater⟩ := hnext
  refine ⟨fun n hn => hroot n (hkids n hn), fun mid step rest r' hmid _ n hn hlt => hroot n ?_⟩
  obtain ⟨hnames, hnodes⟩ := hlater step (by
    rw [hmid]
    exact List.mem_append_right _ List.mem_cons_self)
  unfold Heap.named at hn
  rw [List.isEmpty_iff.1 hnames, List.filterMap_nil, List.append_nil] at hn
  have hold := hnodes n hn
  rw [Bool.or_eq_true, decide_eq_true_iff] at hold
  exact hold.resolve_left (Nat.not_le.2 hlt)

/-- A node is linked to a root and unlinked again, which makes it garbage. -/
def turnover : Program :=
  [.allocate (.root "a") .node [] none, .allocate .bare .node [0] none, .link 0 1 false false,
    .allocate .bare .node [0] none, .unlink 0 0 false, .allocate .bare .node [0] none, .get 0]

/-- Collections before every allocation, over memory that is held back. -/
def eager : Policy :=
  { settings := { Settings.standard with
      mode := .aggressive, margin := 0, trigger := 0, minTrigger := 0, quarantine := some 4096 }
    enabled := true
    headroom := fun _ => 0 }

/-- Full collections on request only. -/
def lazy : Policy :=
  { settings := .standard
    enabled := false
    headroom := fun _ => 0 }

/-- The policy that collects before every allocation and the one that hardly ever does agree. -/
theorem policies_agree_turnover : ∃ h k, Performs 15 2 eager.start turnover h ∧
    Performs 15 2 lazy.start turnover k ∧ SameGraph h k ∧ h.nodeCount = 3 ∧ k.nodeCount = 4 := by
  have hsound : succeeds 15 2 .still turnover (fun _ => true) = true := by decide +kernel
  have heager : succeeds 15 2 eager.start turnover (·.nodeCount == 3) = true := by decide +kernel
  have hlazy : succeeds 15 2 lazy.start turnover (·.nodeCount == 4) = true := by decide +kernel
  have hrooted : Rooted 15 2 turnover := .of_rootsNext (by decide +kernel)
  obtain ⟨h, k, hh, hk, hsame, -⟩ := policies_agree (p := eager) (q := lazy)
    (show ∀ step ∈ turnover, step.isPlain = true by decide) (performs_of_succeeds hsound).1 hrooted
    ((performs_of_succeeds heager).2 .overflow) ((performs_of_succeeds hlazy).2 .overflow)
    (by decide) (by decide) turnover [] (List.append_nil _).symm
  refine ⟨h, k, hh, hk, hsame, ?_, ?_⟩
  · exact beq_iff_eq.1 (hh.of_succeeds heager)
  · exact beq_iff_eq.1 (hk.of_succeeds hlazy)

end Mutator

end HybridHeap
