import HybridHeap.Proofs.Running

/-!
# Root sources and their identifiers

A root source is registered under the lowest identifier that is not in use, and the identifier is
all that is needed to unregister it. As long as it is in use it is given to no other source, so
whoever unregisters first gets the source that was registered. But an identifier that is no longer
in use is given out again, and an old copy of it then stands for the new source.

`Calls` is any interleaving of registering and unregistering, with whatever else the collector does
in between. `Calls.registered_eq` and `Calls.registered_under` say what such a run preserves.
-/

namespace HybridHeap.Mutator

open Act

variable {h h' k : Heap} {s t : SourceId} {i j : Nat} {given : Option SourceId}

/-! ## One call -/

/-- The registry with a source under an identifier that is in the table or next to it. -/
theorem getElem?_put {external : Array (Option SourceId)} (hi : i ≤ external.size) :
    (if i < external.size then external.setIfInBounds i (some s) else external.push (some s))[j]? =
      if j = i then some (some s) else external[j]? := by
  split_ifs with hlt hj hj
  · rw [hj, Array.getElem?_setIfInBounds_self_of_lt hlt]
  · rw [Array.getElem?_setIfInBounds_ne (Ne.symm hj)]
  · rw [Array.getElem?_push, if_pos (by omega)]
  · rw [Array.getElem?_push, if_neg (by omega)]

/-- A source is registered under the lowest identifier that is not in use; nothing else changes in
the registry. -/
theorem registerSource_returns (s : SourceId) (h : Heap) :
    Returns (registerSource s) h fun i h' =>
      h.registered i = none ∧ (∀ j < i, (h.registered j).isSome = true) ∧
        h'.registered i = some s ∧ ∀ j ≠ i, h'.registered j = h.registered j := by
  unfold registerSource
  simp only [Returns, leads_bind, leads_view, leads_update, leads_pure]
  -- What is found is the first place that is vacant, or the place behind the last one.
  generalize hid : (h.roots.external.findIdx? Option.isNone).getD h.roots.external.size = i
  obtain ⟨hle, hfree, hused⟩ : i ≤ h.roots.external.size ∧ h.registered i = none ∧
      ∀ j < i, (h.registered j).isSome = true := by
    unfold Heap.registered
    cases hfind : h.roots.external.findIdx? Option.isNone with
    | none =>
      rw [hfind, Option.getD_none] at hid
      subst hid
      refine ⟨Nat.le_refl _, by simp, fun j hj => ?_⟩
      have hsome := Array.findIdx?_eq_none_iff.1 hfind _ (Array.getElem_mem hj)
      rw [Array.getElem?_eq_getElem hj]
      simpa using hsome
    | some index =>
      rw [hfind, Option.getD_some] at hid
      subst hid
      obtain ⟨hlt, hnone, hbefore⟩ := Array.findIdx?_eq_some_iff_getElem.1 hfind
      refine ⟨Nat.le_of_lt hlt, ?_, fun j hj => ?_⟩
      · rw [Array.getElem?_eq_getElem hlt]
        simpa using hnone
      · rw [Array.getElem?_eq_getElem (Nat.lt_trans hj hlt)]
        exact Option.isSome_iff_ne_none.2 (by simpa using hbefore j hj)
  refine ⟨hfree, hused, ?_, fun j hj => ?_⟩
  · show ((if _ then _ else _ : Array (Option SourceId))[i]?).join = _
    rw [getElem?_put hle, if_pos rfl, Option.join_some]
  · show ((if _ then _ else _ : Array (Option SourceId))[j]?).join = _
    rw [getElem?_put hle, if_neg hj]
    rfl

/-- Unregistering gives back what is registered under the identifier, and leaves the rest as it is;
where there is nothing, nothing at all changes. -/
theorem unregisterSource_returns (i : Nat) (h : Heap) :
    Returns (unregisterSource i) h fun given h' =>
      given = h.registered i ∧ h'.registered i = none ∧
        ∀ j ≠ i, h'.registered j = h.registered j := by
  unfold unregisterSource
  simp only [Returns, leads_bind, leads_view, leads_update, leads_pure]
  refine ⟨trivial, ?_, fun j hj => ?_⟩
  · show ((h.roots.external.setIfInBounds i none)[i]?).join = none
    rw [Array.getElem?_setIfInBounds, if_pos rfl]
    split_ifs <;> rfl
  · show ((h.roots.external.setIfInBounds i none)[j]?).join = _
    rw [Array.getElem?_setIfInBounds_ne (Ne.symm hj)]
    rfl

/-! ## Interleavings of calls -/

/-- A call on the registry, and what came of it. -/
inductive RegistryCall where
  | registered (s : SourceId) (identifier : Nat)
  | unregistered (identifier : Nat) (given : Option SourceId)

/-- From one heap to another the registry was called so, and nothing else changed it. -/
inductive Calls : Heap → List RegistryCall → Heap → Prop where
  | done {h : Heap} : Calls h [] h
  | register {h h' k : Heap} {s : SourceId} {i : Nat} {calls : List RegistryCall}
    (hcall : registerSource s h = .ok i h') (hrest : Calls h' calls k) :
    Calls h (.registered s i :: calls) k
  | unregister {h h' k : Heap} {i : Nat} {given : Option SourceId} {calls : List RegistryCall}
    (hcall : unregisterSource i h = .ok given h') (hrest : Calls h' calls k) :
    Calls h (.unregistered i given :: calls) k
  | meanwhile {h h' k : Heap} {calls : List RegistryCall}
    (hsame : h'.roots.external = h.roots.external) (hrest : Calls h' calls k) : Calls h calls k

/-- What an identifier stands for after some calls, if it stood for `source` before. -/
def holder (i : Nat) : Option SourceId → List RegistryCall → Option SourceId
  | source, [] => source
  | source, .registered s j :: calls => holder i (if j = i then some s else source) calls
  | source, .unregistered j _ :: calls => holder i (if j = i then none else source) calls

/-- An identifier that stands for nothing does so until it is given out. -/
theorem holder_none {calls : List RegistryCall} (hnone : ∀ t, .registered t i ∉ calls) :
    holder i none calls = none := by
  induction calls with
  | nil => rfl
  | cons call calls ih =>
    have hrest := ih fun t ht => hnone t (List.mem_cons_of_mem _ ht)
    cases call with
    | registered s j =>
      have hj : j ≠ i := fun hj => hnone s (hj ▸ List.mem_cons_self)
      rw [holder, if_neg hj, hrest]
    | unregistered j given =>
      rw [holder, ite_self, hrest]

namespace Calls

variable {calls : List RegistryCall}

/-- What has been called tells what every identifier stands for. -/
theorem registered_eq (hc : Calls h calls k) (i : Nat) :
    k.registered i = holder i (h.registered i) calls := by
  induction hc with
  | done => rfl
  | @register h h' _ s j _ hcall _ ih =>
    obtain ⟨-, -, hj, hother⟩ := (registerSource_returns s h).of_ok hcall
    rw [ih, holder]
    split_ifs with hji
    · rw [← hji, hj]
    · rw [hother i (Ne.symm hji)]
  | @unregister h h' _ j _ _ hcall _ ih =>
    obtain ⟨-, hj, hother⟩ := (unregisterSource_returns j h).of_ok hcall
    rw [ih, holder]
    split_ifs with hji
    · rw [← hji, hj]
    · rw [hother i (Ne.symm hji)]
  | meanwhile hsame _ ih =>
    rw [ih]
    unfold Heap.registered
    rw [hsame]

/-- An identifier in use is given to no other source, and so stands for the same one until it is
unregistered. -/
theorem registered_under (hc : Calls h calls k) (hi : h.registered i = some s)
    (hfirst : ∀ given, .unregistered i given ∉ calls) : k.registered i = some s := by
  induction hc with
  | done => exact hi
  | @register h h' _ t j _ hcall _ ih =>
    -- Only a vacant identifier is given out, and this one is not.
    obtain ⟨hfree, -, -, hother⟩ := (registerSource_returns t h).of_ok hcall
    have hij : i ≠ j := fun hij => by
      rw [← hij, hi] at hfree
      cases hfree
    exact ih ((hother i hij).trans hi) fun given hg => hfirst given (List.mem_cons_of_mem _ hg)
  | @unregister h h' _ j given _ hcall _ ih =>
    obtain ⟨-, -, hother⟩ := (unregisterSource_returns j h).of_ok hcall
    have hij : i ≠ j := fun hij => hfirst given (hij ▸ List.mem_cons_self)
    exact ih ((hother i hij).trans hi) fun given hg => hfirst given (List.mem_cons_of_mem _ hg)
  | @meanwhile h h' _ _ hsame _ ih =>
    refine ih ?_ hfirst
    unfold Heap.registered at hi ⊢
    rwa [hsame]

end Calls

/-- The first to unregister the identifier that a source was registered under gets that very source,
whatever was called in between. Whoever unregisters it again gets what has been registered under it
since: nothing, and the registry stays as it is, if it has not been given out again. No source but
the one that is given back is unregistered. -/
theorem source_given_back {h₁ h₂ : Heap} {before : List RegistryCall}
    (hregister : registerSource s h = .ok i h₁) (hbefore : Calls h₁ before h₂)
    (hfirst : ∀ given, .unregistered i given ∉ before) :
    ∃ h₃, unregisterSource i h₂ = .ok (some s) h₃ ∧
      (∀ j ≠ i, h₃.registered j = h₂.registered j) ∧
      ∀ after k, Calls h₃ after k →
        ∃ k', unregisterSource i k = .ok (holder i none after) k' ∧
          (∀ j ≠ i, k'.registered j = k.registered j) ∧
          ((∀ t, .registered t i ∉ after) →
            holder i none after = none ∧ ∀ j, k'.registered j = k.registered j) := by
  obtain ⟨-, -, hi, -⟩ := (registerSource_returns s h).of_ok hregister
  obtain ⟨given, h₃, hgive, hgiven, hvacant, hother⟩ :=
    returns_iff.1 (unregisterSource_returns i h₂)
  rw [hbefore.registered_under hi hfirst] at hgiven
  refine ⟨h₃, hgiven ▸ hgive, hother, fun after k hafter => ?_⟩
  obtain ⟨given', k', hgive', hgiven', hvacant', hother'⟩ :=
    returns_iff.1 (unregisterSource_returns i k)
  have hholder : k.registered i = holder i none after := by
    rw [hafter.registered_eq, hvacant]
  refine ⟨k', hholder ▸ hgiven' ▸ hgive', hother', fun hnone => ⟨holder_none hnone, fun j => ?_⟩⟩
  by_cases hj : j = i
  · rw [hj, hvacant', hholder, holder_none hnone]
  · exact hother' j hj

/-- A source is registered and unregistered while another one stays registered, and unregistered
once more. -/
theorem source_given_back_once :
    ∃ h h₁ h₂ h₃ k', registerSource 0 h = .ok 0 h₁ ∧ registerSource 1 h₁ = .ok 1 h₂ ∧
      unregisterSource 0 h₂ = .ok (some 0) h₃ ∧ unregisterSource 0 h₃ = .ok none k' ∧
      k'.registered 1 = some 1 := by
  have hrun : Returns (registerSource 0) (.start .standard none none fun _ => 0)
      fun i h₁ => i = 0 ∧ Returns (registerSource 1) h₁ fun i _ => i = 1 := by
    decide +kernel
  obtain ⟨_, h₁, hregister, rfl, hrun⟩ := returns_iff.1 hrun
  obtain ⟨_, h₂, hother, rfl⟩ := returns_iff.1 hrun
  obtain ⟨h₃, hgive, hsame, hlater⟩ :=
    source_given_back hregister (.register hother .done) (by simp)
  obtain ⟨k', hgive', -, hnone⟩ := hlater [] h₃ .done
  obtain ⟨-, hunchanged⟩ := hnone (by simp)
  obtain ⟨-, -, hone, -⟩ := (registerSource_returns 1 h₁).of_ok hother
  exact ⟨_, h₁, h₂, h₃, k', hregister, hother, hgive, hgive',
    (hunchanged 1).trans ((hsame 1 (by decide)).trans hone)⟩

/-- The identifier of a source that has been unregistered is given to the next one, which whoever
still has it can then unregister. -/
theorem identifier_names_two_sources :
    ∃ h₁ h₂ h₃ k, registerSource 0 (.start .standard none none fun _ => 0) = .ok 0 h₁ ∧
      unregisterSource 0 h₁ = .ok (some 0) h₂ ∧ registerSource 1 h₂ = .ok 0 h₃ ∧
      unregisterSource 0 h₃ = .ok (some 1) k ∧ k.registered 0 = none := by
  have hrun : Returns (registerSource 0) (.start .standard none none fun _ => 0)
      fun i h₁ => i = 0 ∧ Returns (unregisterSource 0) h₁ fun given h₂ => given = some 0 ∧
        Returns (registerSource 1) h₂ fun i _ => i = 0 := by
    decide +kernel
  obtain ⟨_, h₁, hfirst, rfl, hrun⟩ := returns_iff.1 hrun
  obtain ⟨_, h₂, hgive, rfl, hrun⟩ := returns_iff.1 hrun
  obtain ⟨_, h₃, hsecond, rfl⟩ := returns_iff.1 hrun
  obtain ⟨-, -, hone, -⟩ := (registerSource_returns 1 h₂).of_ok hsecond
  obtain ⟨given, k, hgive', hgiven, hnone, -⟩ := returns_iff.1 (unregisterSource_returns 0 h₃)
  exact ⟨h₁, h₂, h₃, k, hfirst, hgive, hsecond, hone ▸ hgiven ▸ hgive', hnone⟩

end HybridHeap.Mutator
