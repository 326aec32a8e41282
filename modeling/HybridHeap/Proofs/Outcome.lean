import HybridHeap.Heap
import Mathlib.Order.Defs.Unbundled

/-!
# Where an operation leads

`Leads x h Q E` says that the operation `x`, run on the heap `h`, returns with `Q` or fails with
`E`. There is one rule for each way of building an operation, and a proof about an operation runs it
by these rules, with the lemmas of the operations that it calls in their places. Two postconditions
for failures are used throughout: none at all (`Returns`), and `Failed R torn`, which knows `R` of
the heap after any failure that does not hide it. What hides it depends on what is to be shown. If
the heap is to be accounted for in full, every final failure does: nothing is known afterwards,
except that it was no reference counted down too often. If it may be torn by fatal errors, as it is
when a run goes on after them, only running out of fuel does.
-/

namespace HybridHeap

/-- Whether the failure is that of a reference counted down too often. -/
def Failure.isUnderflow : Failure → Bool
  | .fatal (.underflow _ _) => true
  | _ => false

/-- An underflow is final. -/
theorem Failure.isFinal_of_isUnderflow {e : Failure} (he : e.isUnderflow = true) :
    e.isFinal = true := by
  cases e <;> simp_all [isUnderflow, isFinal]

/-- A cleanup that does not run out of fuel does not hide an underflow. -/
theorem Failure.isUnderflow_andThen {e e' : Failure} (he : e.isUnderflow = true)
    (hne : e' ≠ .exhausted) : (e.andThen e').isUnderflow = true := by
  unfold Failure.andThen
  rw [Failure.isFinal_of_isUnderflow he]
  simpa [hne] using he

/-- Whether nothing is known of the heap after the failure. If fatal errors tear the heap, what is
known then is known after them too, and only running out of fuel leaves nothing to show. -/
def Failure.hides (torn : Bool) (e : Failure) : Bool :=
  if torn then e == .exhausted else e.isFinal

/-- A failure after which nothing is known is final. -/
theorem Failure.isFinal_of_hides {torn : Bool} {e : Failure} (he : e.hides torn = true) :
    e.isFinal = true := by
  cases torn with
  | false => exact he
  | true => rw [eq_of_beq (show (e == .exhausted) = true from he)]; rfl

/-- Running out of fuel leaves nothing to show. -/
theorem Failure.hides_exhausted (torn : Bool) : Failure.exhausted.hides torn = true := by
  cases torn <;> rfl

/-- An operation that fails twice runs out of fuel if it does either time. -/
theorem Failure.andThen_eq_exhausted {e cleanup : Failure} :
    e.andThen cleanup = .exhausted ↔ e = .exhausted ∨ cleanup = .exhausted := by
  unfold Failure.andThen
  cases e <;> cases cleanup <;> simp [isFinal]

/-- What is known after a failure: `R` of the heap if anything is, and that no reference was counted
down too often unless fatal errors tear the heap. -/
def Failed (R : Heap → Prop) (torn : Bool) (e : Failure) (h : Heap) : Prop :=
  (!torn && e.isUnderflow) = false ∧ (e.hides torn = false → R h)

/-- A failure after which nothing is known, and which is no underflow, leaves nothing to show. -/
theorem Failed.of_hides {torn : Bool} {R : Heap → Prop} {e : Failure} {h : Heap}
    (he : e.hides torn = true) (hu : (!torn && e.isUnderflow) = false) : Failed R torn e h :=
  ⟨hu, fun hf => by rw [he] at hf; cases hf⟩

/-- Running out of fuel leaves nothing to show. -/
theorem Failed.exhausted {torn : Bool} {R : Heap → Prop} {h : Heap} : Failed R torn .exhausted h :=
  .of_hides (Failure.hides_exhausted torn) (by cases torn <;> rfl)

/-- A failure that is not final leaves only the heap to speak of. -/
theorem Failed.of_not_isFinal {torn : Bool} {R : Heap → Prop} {e : Failure} {h : Heap}
    (he : e.isFinal = false) (hR : R h) : Failed R torn e h := by
  refine ⟨?_, fun _ => hR⟩
  cases hu : e.isUnderflow with
  | false => exact Bool.and_false _
  | true =>
    rw [Failure.isFinal_of_isUnderflow hu] at he
    cases he

/-- A fatal error that is no underflow leaves what is known of the heap, if it tears it. -/
theorem Failed.of_fatal {torn : Bool} {R : Heap → Prop} {c : Fatal} {h : Heap}
    (hc : (Failure.fatal c).isUnderflow = false) (hR : torn = true → R h) :
    Failed R torn (.fatal c) h := by
  refine ⟨by rw [hc, Bool.and_false], fun he => hR ?_⟩
  cases torn with
  | false => cases he
  | true => rfl

/-- What is known after a failure may be weakened. -/
theorem Failed.mono {torn : Bool} {R S : Heap → Prop} {e : Failure} {h : Heap}
    (hF : Failed R torn e h) (hRS : R h → S h) : Failed S torn e h :=
  ⟨hF.1, fun he => hRS (hF.2 he)⟩

namespace Act

variable {α β : Type}

/-- The operation `x` leads from `h` to `Q` if it returns and to `E` if it fails. -/
def Leads (x : Act α) (h : Heap) (Q : α → Heap → Prop) (E : Failure → Heap → Prop) : Prop :=
  match x h with
  | .ok a h' => Q a h'
  | .error e h' => E e h'

/-- The operation returns, with `Q`. -/
def Returns (x : Act α) (h : Heap) (Q : α → Heap → Prop) : Prop := Leads x h Q fun _ _ => False

instance {x : Act α} {h : Heap} {Q : α → Heap → Prop} {E : Failure → Heap → Prop}
    [∀ a k, Decidable (Q a k)] [∀ e k, Decidable (E e k)] : Decidable (Leads x h Q E) :=
  match hx : x h with
  | .ok a k => decidable_of_iff (Q a k) (by unfold Leads; rw [hx])
  | .error e k => decidable_of_iff (E e k) (by unfold Leads; rw [hx])

instance {x : Act α} {h : Heap} {Q : α → Heap → Prop} [∀ a k, Decidable (Q a k)] :
    Decidable (Returns x h Q) :=
  inferInstanceAs (Decidable (Leads x h Q fun _ _ => False))

/-- Every operation leads to what comes of it. -/
theorem leads_self (x : Act α) (h : Heap) :
    Leads x h (fun a k => x h = .ok a k) fun e k => x h = .error e k := by
  unfold Leads
  cases x h <;> rfl

/-- Either postcondition may be weakened. -/
theorem Leads.mono {x : Act α} {h : Heap} {Q Q' : α → Heap → Prop} {E E' : Failure → Heap → Prop}
    (hx : Leads x h Q E) (hQ : ∀ a h', Q a h' → Q' a h') (hE : ∀ e h', E e h' → E' e h') :
    Leads x h Q' E' := by
  unfold Leads at hx ⊢
  cases hxh : x h with
  | ok a h' => rw [hxh] at hx; exact hQ a h' hx
  | error e h' => rw [hxh] at hx; exact hE e h' hx

/-- What is known of the result may be weakened. -/
theorem Leads.imp {x : Act α} {h : Heap} {Q Q' : α → Heap → Prop} {E : Failure → Heap → Prop}
    (hx : Leads x h Q E) (hQ : ∀ a h', Q a h' → Q' a h') : Leads x h Q' E :=
  hx.mono hQ fun _ _ he => he

/-- An operation none of whose failures can come about returns. -/
theorem Leads.returns_of_not {x : Act α} {h : Heap} {Q : α → Heap → Prop}
    {E : Failure → Heap → Prop} (hx : Leads x h Q E) (hE : ∀ e h', ¬ E e h') : Returns x h Q :=
  hx.mono (fun _ _ hQ => hQ) hE

/-- An operation that returns leads wherever its result does. -/
theorem Returns.leads {x : Act α} {h : Heap} {Q Q' : α → Heap → Prop}
    {E : Failure → Heap → Prop} (hx : Returns x h Q) (hQ : ∀ a h', Q a h' → Q' a h') :
    Leads x h Q' E :=
  Leads.mono hx hQ fun _ _ hf => hf.elim

/-- The postcondition of an operation that returns may be weakened. -/
theorem Returns.mono {x : Act α} {h : Heap} {Q Q' : α → Heap → Prop} (hx : Returns x h Q)
    (hQ : ∀ a h', Q a h' → Q' a h') : Returns x h Q' :=
  hx.leads hQ

/-- What is known of an operation that has returned. -/
theorem Leads.of_ok {x : Act α} {h h' : Heap} {Q : α → Heap → Prop} {E : Failure → Heap → Prop}
    {a : α} (hx : Leads x h Q E) (hok : x h = .ok a h') : Q a h' := by
  unfold Leads at hx
  rw [hok] at hx
  exact hx

/-- What is known of an operation that has failed. -/
theorem Leads.of_error {x : Act α} {h h' : Heap} {Q : α → Heap → Prop}
    {E : Failure → Heap → Prop} {e : Failure} (hx : Leads x h Q E) (herror : x h = .error e h') :
    E e h' := by
  unfold Leads at hx
  rw [herror] at hx
  exact hx

/-- An operation that can fail in one way only, and does not, returns. -/
theorem Leads.returns {x : Act α} {h : Heap} {Q : α → Heap → Prop} {e : Failure}
    (hx : Leads x h Q fun e' _ => e' = e) (hne : ∀ k, x h ≠ .error e k) : Returns x h Q := by
  unfold Returns Leads
  cases hxh : x h with
  | ok a k => exact hx.of_ok hxh
  | error e' k =>
    obtain rfl : e' = e := hx.of_error hxh
    exact hne k hxh

/-- An operation leads where one does that does the same. -/
theorem leads_congr {x y : Act α} {h k : Heap} {Q : α → Heap → Prop} {E : Failure → Heap → Prop}
    (hxy : x h = y k) : Leads x h Q E ↔ Leads y k Q E := by
  unfold Leads
  rw [hxy]

/-- Two postconditions make one. -/
theorem Leads.and {x : Act α} {h : Heap} {Q Q' : α → Heap → Prop} {E E' : Failure → Heap → Prop}
    (hx : Leads x h Q E) (hx' : Leads x h Q' E') :
    Leads x h (fun a h' => Q a h' ∧ Q' a h') fun e h' => E e h' ∧ E' e h' := by
  unfold Leads at hx hx' ⊢
  cases hxh : x h with
  | ok a h' =>
    rw [hxh] at hx hx'
    exact ⟨hx, hx'⟩
  | error e h' =>
    rw [hxh] at hx hx'
    exact ⟨hx, hx'⟩

/-- An operation that returns has a result. -/
theorem returns_iff {x : Act α} {h : Heap} {Q : α → Heap → Prop} :
    Returns x h Q ↔ ∃ a h', x h = .ok a h' ∧ Q a h' := by
  unfold Returns Leads
  cases hxh : x h with
  | ok a h' =>
    constructor
    · intro hQ
      exact ⟨a, h', rfl, hQ⟩
    · rintro ⟨b, k, hbk, hQ⟩
      cases hbk
      exact hQ
  | error e h' => simp

/-- What holds whatever happens is a postcondition of every operation. -/
theorem leads_of_const {x : Act α} {h : Heap} {P : Prop} (hP : P) :
    Leads x h (fun _ _ => P) fun _ _ => P := by
  unfold Leads
  cases x h <;> exact hP

/-- A sequence returns if and only if both its parts do. -/
theorem bind_eq_ok {x : Act α} {f : α → Act β} {b : β} {h h' : Heap} :
    (x >>= f) h = .ok b h' ↔ ∃ a k, x h = .ok a k ∧ f a k = .ok b h' := by
  simp only [bind, EStateM.bind]
  cases x h with
  | ok a k =>
    constructor
    · exact fun hf => ⟨a, k, rfl, hf⟩
    · rintro ⟨_, _, heq, hf⟩
      cases heq
      exact hf
  | error e k => simp

/-- A sequence fails if and only if one of its parts does. -/
theorem bind_eq_error {x : Act α} {f : α → Act β} {e : Failure} {h h' : Heap} :
    (x >>= f) h = .error e h' ↔
      x h = .error e h' ∨ ∃ a k, x h = .ok a k ∧ f a k = .error e h' := by
  simp only [bind, EStateM.bind]
  cases x h with
  | ok a k =>
    constructor
    · exact fun hf => .inr ⟨a, k, rfl, hf⟩
    · rintro (hx | ⟨_, _, heq, hf⟩)
      · cases hx
      · cases heq
        exact hf
  | error e' k => simp

/-- An operation fails whatever is made of its result. -/
theorem map_eq_error {x : Act α} {f : α → β} {e : Failure} {h h' : Heap} :
    (f <$> x) h = .error e h' ↔ x h = .error e h' := by
  simp only [Functor.map, EStateM.map]
  cases x h <;> simp

/-- An operation returns whether its result is kept or not. -/
theorem discard_eq_ok {x : Act α} {u : PUnit} {h h' : Heap} :
    discard x h = .ok u h' ↔ ∃ a, x h = .ok a h' := by
  simp only [discard, Functor.discard, Functor.mapConst, Function.comp, EStateM.map]
  cases x h <;> simp

/-- It fails whether its result is kept or not. -/
theorem discard_eq_error {x : Act α} {e : Failure} {h h' : Heap} :
    discard x h = .error e h' ↔ x h = .error e h' := by
  simp only [discard, Functor.discard, Functor.mapConst, Function.comp, EStateM.map]
  cases x h <;> simp

/-- What is done on failure does not touch an operation that returns. -/
theorem onFailure_eq_ok {x : Act α} {c : Act Unit} {a : α} {h k : Heap} :
    onFailure x c h = .ok a k ↔ x h = .ok a k := by
  unfold onFailure
  cases x h with
  | ok b h' => exact Iff.rfl
  | error e h' =>
    dsimp only
    cases c h' <;> simp

/-- What fails in spite of what is done on failure has failed without it, and either that has
returned or both failures are reported as one. -/
theorem error_of_onFailure {x : Act α} {c : Act Unit} {e : Failure} {h k : Heap}
    (herror : onFailure x c h = .error e k) : ∃ e₁ h₁, x h = .error e₁ h₁ ∧
      (c h₁ = .ok () k ∧ e₁ = e ∨ ∃ e₂, c h₁ = .error e₂ k ∧ e₁.andThen e₂ = e) := by
  unfold onFailure at herror
  split at herror
  · cases herror
  · rename_i e₁ h₁ hx
    refine ⟨e₁, h₁, hx, ?_⟩
    split at herror
    · rename_i hc
      cases herror
      exact .inl ⟨hc, rfl⟩
    · rename_i e₂ _ hc
      cases herror
      exact .inr ⟨e₂, hc, rfl⟩

/-- A cleanup that returns does not change what the operation before it returned. -/
theorem ensuring_of_ok {x : Act α} {cleanup : Act Unit} {a : α} {h h'' : Heap} (h' : Heap)
    (hx : x h = .ok a h') (hcleanup : cleanup h' = .ok () h'') :
    ensuring x cleanup h = .ok a h'' := by
  unfold ensuring
  rw [hx]
  dsimp only
  rw [hcleanup]

/-- An operation with a cleanup returns if and only if both do. -/
theorem ensuring_eq_ok {x : Act α} {cleanup : Act Unit} {a : α} {h h'' : Heap} :
    ensuring x cleanup h = .ok a h'' ↔ ∃ h', x h = .ok a h' ∧ cleanup h' = .ok () h'' := by
  refine ⟨fun hok => ?_, fun ⟨h', hx, hcleanup⟩ => ensuring_of_ok h' hx hcleanup⟩
  unfold ensuring at hok
  split at hok
  · rename_i h' hx
    split at hok
    · rename_i hcleanup
      cases hok
      exact ⟨h', hx, hcleanup⟩
    · cases hok
  · split at hok <;> cases hok

/-! ## Rules -/

@[simp] theorem leads_pure {a : α} {h : Heap} {Q : α → Heap → Prop} {E : Failure → Heap → Prop} :
    Leads (pure a) h Q E ↔ Q a h := Iff.rfl

@[simp] theorem leads_bind {x : Act α} {f : α → Act β} {h : Heap} {Q : β → Heap → Prop}
    {E : Failure → Heap → Prop} :
    Leads (x >>= f) h Q E ↔ Leads x h (fun a h' => Leads (f a) h' Q E) E := by
  simp only [Leads, bind, EStateM.bind]
  cases x h <;> rfl

@[simp] theorem leads_map {x : Act α} {f : α → β} {h : Heap} {Q : β → Heap → Prop}
    {E : Failure → Heap → Prop} :
    Leads (f <$> x) h Q E ↔ Leads x h (fun a h' => Q (f a) h') E := by
  simp only [Leads, Functor.map, EStateM.map]
  cases x h <;> rfl

@[simp] theorem leads_discard {x : Act α} {h : Heap} {Q : PUnit → Heap → Prop}
    {E : Failure → Heap → Prop} :
    Leads (discard x) h Q E ↔ Leads x h (fun _ h' => Q PUnit.unit h') E := by
  simp only [Leads, discard, Functor.discard, Functor.mapConst, Function.comp, EStateM.map]
  cases x h <;> rfl

@[simp] theorem leads_throw {e : Failure} {h : Heap} {Q : α → Heap → Prop}
    {E : Failure → Heap → Prop} : Leads (throw e : Act α) h Q E ↔ E e h := Iff.rfl

@[simp] theorem leads_view {f : Heap → α} {h : Heap} {Q : α → Heap → Prop}
    {E : Failure → Heap → Prop} : Leads (view f) h Q E ↔ Q (f h) h := Iff.rfl

@[simp] theorem leads_update {f : Heap → Heap} {h : Heap} {Q : Unit → Heap → Prop}
    {E : Failure → Heap → Prop} : Leads (update f) h Q E ↔ Q () (f h) := Iff.rfl

@[simp] theorem leads_fatal {c : Fatal} {h : Heap} {Q : α → Heap → Prop}
    {E : Failure → Heap → Prop} :
    Leads (fatal c) h Q E ↔ E (.fatal c) (h.log .error c.message) := Iff.rfl

/-- A fatal error that is no underflow leaves what is known of the heap, if it tears it. -/
theorem leads_fatal_failed {torn : Bool} {c : Fatal} {h : Heap} {Q : α → Heap → Prop}
    {R : Heap → Prop} (hc : (Failure.fatal c).isUnderflow = false)
    (hR : torn = true → R (h.log .error c.message)) : Leads (fatal c) h Q (Failed R torn) :=
  leads_fatal.2 (.of_fatal hc hR)

@[simp] theorem leads_onFailure {x : Act α} {c : Act Unit} {h : Heap} {Q : α → Heap → Prop}
    {E : Failure → Heap → Prop} :
    Leads (onFailure x c) h Q E ↔
      Leads x h Q fun e h' =>
        Leads c h' (fun _ h'' => E e h'') fun e' h'' => E (e.andThen e') h'' := by
  simp only [Leads, onFailure]
  cases x h with
  | ok a h' => rfl
  | error e h' =>
    dsimp only
    cases c h' <;> rfl

@[simp] theorem leads_ensuring {x : Act α} {c : Act Unit} {h : Heap} {Q : α → Heap → Prop}
    {E : Failure → Heap → Prop} :
    Leads (ensuring x c) h Q E ↔
      Leads x h (fun a h' => Leads c h' (fun _ h'' => Q a h'') E) fun e h' =>
        Leads c h' (fun _ h'' => E e h'') fun e' h'' => E (e.andThen e') h'' := by
  simp only [Leads, ensuring]
  cases x h with
  | ok a h' =>
    dsimp only
    cases c h' <;> rfl
  | error e h' =>
    dsimp only
    cases c h' <;> rfl

/-- After a failure of which nothing is known a cleanup changes nothing that is known. After any
other it may add a failure of its own. -/
theorem leads_cleanup {torn : Bool} {e : Failure} {c : Act Unit} {h : Heap} {R S : Heap → Prop}
    (he : Failed R torn e h) (hc : R h → Leads c h (fun _ => S) (Failed S torn)) :
    Leads c h (fun _ => Failed S torn e) fun e' => Failed S torn (e.andThen e') := by
  cases hf : e.hides torn with
  | true =>
    refine (leads_of_const (P := True) trivial).mono (fun _ _ _ => .of_hides hf he.1)
      fun e' _ _ => ?_
    by_cases hfuel : e' = .exhausted
    · rw [Failure.andThen_eq_exhausted.2 (.inr hfuel)]
      exact .exhausted
    · rw [Failure.andThen, if_pos (by simp [Failure.isFinal_of_hides hf, hfuel])]
      exact .of_hides hf he.1
  | false =>
    refine (hc (he.2 hf)).mono (fun _ h' hS => ⟨he.1, fun _ => hS⟩) fun e' h' he' => ?_
    unfold Failure.andThen
    split
    · rename_i hfinal
      obtain ⟨hfinal, hfuel⟩ : e.isFinal = true ∧ e' ≠ .exhausted := by simpa using hfinal
      -- A final failure that hides nothing is one that tears the heap.
      refine ⟨he.1, fun _ => he'.2 ?_⟩
      cases torn with
      | false => exact absurd (hfinal.symm.trans hf) (by simp)
      | true => exact beq_eq_false_iff_ne.2 hfuel
    · exact he'

/-- The rule for `ensuring` when the heap is known after a failure that does not hide it. -/
theorem Leads.ensuring {torn : Bool} {x : Act α} {c : Act Unit} {h : Heap}
    {Q Q' : α → Heap → Prop} {R S : Heap → Prop} (hx : Leads x h Q (Failed R torn))
    (hok : ∀ a h', Q a h' → Leads c h' (fun _ => Q' a) (Failed S torn))
    (herr : ∀ h', R h' → Leads c h' (fun _ => S) (Failed S torn)) :
    Leads (ensuring x c) h Q' (Failed S torn) :=
  leads_ensuring.2 <| hx.mono hok fun _ h' he => leads_cleanup he (herr h')

/-- The rule for `onFailure` when the heap is known after a failure that does not hide it. -/
theorem Leads.onFailure {torn : Bool} {x : Act α} {c : Act Unit} {h : Heap} {Q : α → Heap → Prop}
    {R S : Heap → Prop} (hx : Leads x h Q (Failed R torn))
    (herr : ∀ h', R h' → Leads c h' (fun _ => S) (Failed S torn)) :
    Leads (onFailure x c) h Q (Failed S torn) :=
  leads_onFailure.2 <| hx.mono (fun _ _ hQ => hQ) fun _ h' he => leads_cleanup he (herr h')

/-- Going through a list is to see to its head and go through its tail. -/
theorem leads_forM_cons {f : α → Act PUnit} {a : α} {l : List α} {h : Heap}
    {Q : PUnit → Heap → Prop} {E : Failure → Heap → Prop} :
    Leads ((a :: l).forM f) h Q E ↔ Leads (f a) h (fun _ h' => Leads (l.forM f) h' Q E) E :=
  leads_bind

/-! ## What an operation keeps -/

/-- The heap that an operation has led to. -/
def after : EStateM.Result Failure Heap α → Heap
  | .ok _ h => h
  | .error _ h => h

/-- What holds of the heap whatever an operation does holds where it has led. -/
theorem Leads.after {x : Act α} {h : Heap} {P : Heap → Prop}
    (hx : Leads x h (fun _ => P) fun _ => P) : P (after (x h)) := by
  unfold Leads at hx
  cases hxh : x h with
  | ok a k => rwa [hxh] at hx
  | error e k => rwa [hxh] at hx

/-- If the operation returns, it ends with `P`. -/
def OnReturn (x : Act α) (h : Heap) (P : Heap → Prop) : Prop :=
  Leads x h (fun _ => P) fun _ _ => True

namespace OnReturn

section

variable {P : Heap → Prop} {h : Heap}

theorem update {g : Heap → Heap} (hg : P (g h)) : OnReturn (update g) h P := hg

theorem throw (e : Failure) : OnReturn (throw e : Act α) h P := trivial

theorem fatal (cause : Fatal) : OnReturn (fatal cause : Act α) h P := trivial

theorem ite {p : Prop} [Decidable p] {x y : Act α} (hx : OnReturn x h P) (hy : OnReturn y h P) :
    OnReturn (if p then x else y) h P := by
  split
  · exact hx
  · exact hy

theorem onFailure {x : Act α} {c : Act Unit} (hx : OnReturn x h P) :
    OnReturn (onFailure x c) h P :=
  leads_onFailure.2 (Leads.mono hx (fun _ _ hP => hP) fun _ _ _ => leads_of_const trivial)

/-- What holds whenever an operation returns holds if it does. -/
theorem of_returns {x : Act α} {Q : α → Heap → Prop} (hx : Returns x h Q)
    (hQ : ∀ a h', Q a h' → P h') : OnReturn x h P := hx.leads hQ

end

/-! What is kept is said by a relation between the heaps before and after, which is reflexive and
transitive: it is kept by every way of building an operation from operations that keep it. -/

variable {R : Heap → Heap → Prop} [IsPreorder Heap R] {x : Act α} {f : α → Act β} {c : Act Unit}
  {h h' : Heap}

theorem pure (a : α) : OnReturn (pure a : Act α) h (R h) := refl_of R h

theorem view (g : Heap → α) : OnReturn (view g) h (R h) := refl_of R h

/-- What an operation keeps is kept since before another that keeps it too. -/
theorem since (hR : R h h') (hx : OnReturn x h' (R h')) : OnReturn x h' (R h) :=
  Leads.imp hx fun _ _ => trans_of R hR

theorem bind (hx : OnReturn x h (R h)) (hf : ∀ a h', R h h' → OnReturn (f a) h' (R h')) :
    OnReturn (x >>= f) h (R h) :=
  leads_bind.2 (Leads.imp hx fun a h' hR => (hf a h' hR).since hR)

theorem ensuring (hx : OnReturn x h (R h)) (hc : ∀ h', OnReturn c h' (R h')) :
    OnReturn (ensuring x c) h (R h) :=
  leads_ensuring.2 (Leads.mono hx (fun _ h' hR => (hc h').since hR) fun _ _ _ =>
    leads_of_const trivial)

theorem forM {g : α → Act PUnit} (hg : ∀ a h', OnReturn (g a) h' (R h')) (l : List α) :
    OnReturn (l.forM g) h (R h) := by
  induction l generalizing h with
  | nil => exact pure _
  | cons a l ih => exact bind (hg a h) fun _ _ _ => ih

end OnReturn

end Act

end HybridHeap
