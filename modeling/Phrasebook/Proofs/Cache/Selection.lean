import Phrasebook.Proofs.Cache.Eviction

/-!
# Selecting the first arm that applies

The arms of a conditional are tried in order, and the first one that does not say no decides: by its
template if it applies, by its failure if its condition cannot be read or evaluated. Nothing after
it is looked at. This holds for whatever the memo remembers, also while the arms themselves push one
another out of it.

* `Arm.Declines`: an arm that is read and does not apply;
* `Memo.AddsOnly`: a memo that remembers nothing new but the conditions of certain arms;
* `Memo.first_arm_decides`: which arm decides, and what the memo remembers then.
-/

namespace Phrasebook

/-! ### The arm that decides -/

namespace Arm

variable {params : Params} {before after : List Arm} {arm : Arm}

/-- The condition of an arm can be read, and does not hold. -/
def Declines (params : Params) (arm : Arm) : Prop :=
  ∃ condition, Condition.compile arm.condition = .ok condition ∧ condition.holds params = .ok false

theorem declines_iff : arm.Declines params ↔ arm.verdict params = .ok false := by
  unfold Declines verdict
  cases Condition.compile arm.condition <;> simp

/-- Where all arms decline, none is found, and all were tried. -/
theorem firstMatch_of_declines {arms : List Arm} (h : ∀ arm ∈ arms, arm.Declines params) :
    firstMatch params arms = .ok none ∧ tried params arms = arms.map condition := by
  induction arms with
  | nil => exact ⟨rfl, rfl⟩
  | cons arm rest ih =>
    obtain ⟨hfirst, hrest⟩ := List.forall_mem_cons.mp h
    have hverdict := declines_iff.mp hfirst
    obtain ⟨hnone, htried⟩ := ih hrest
    rw [firstMatch, tried, hverdict, List.map_cons]
    exact ⟨hnone, congrArg _ htried⟩

/-- The first arm that does not decline decides, and no further one is tried. -/
theorem firstMatch_append_cons (hbefore : ∀ b ∈ before, b.Declines params)
    (harm : ¬ arm.Declines params) (after : List Arm) :
    firstMatch params (before ++ arm :: after) =
        (arm.verdict params).map (fun _ => some arm.template) ∧
      tried params (before ++ arm :: after) = (before ++ [arm]).map condition := by
  induction before with
  | nil =>
    -- The arm applies or fails; both end the search, so the arms after it are not even tried.
    rw [declines_iff] at harm
    simp only [List.nil_append, firstMatch, tried]
    rcases hverdict : arm.verdict params with failure | _ | _
    · exact ⟨rfl, rfl⟩
    · exact absurd hverdict harm
    · exact ⟨rfl, rfl⟩
  | cons b before ih =>
    obtain ⟨hfirst, hrest⟩ := List.forall_mem_cons.mp hbefore
    have hverdict := declines_iff.mp hfirst
    obtain ⟨hmatch, htried⟩ := ih hrest
    rw [List.cons_append, firstMatch, tried, hverdict, List.cons_append, List.map_cons]
    exact ⟨hmatch, congrArg _ htried⟩

end Arm

namespace Memo

variable {m : Memo} {params : Params} {arms before : List Arm} {arm : Arm}

/-! ### What a selection reads -/

/-- The memo after the conditions of these arms were read, in order. -/
def afterReading (m : Memo) (arms : List Arm) : Memo :=
  (arms.map Arm.condition).foldl (fun m source => (m.compile source).2) m

/-- Where all arms decline, all are read and the default is selected. -/
theorem Faithful.select_of_declines (h : m.Faithful) {c : Conditional}
    (hall : ∀ arm ∈ c.arms, arm.Declines params) :
    m.select c params = (.ok c.otherwise, m.afterReading c.arms) := by
  obtain ⟨hnone, htried⟩ := Arm.firstMatch_of_declines hall
  refine Prod.ext ?_ ?_
  · rw [(h.select c params).1, Conditional.choice, hnone]
  · rw [h.select_eq_foldl, htried]
    rfl

/-- The arms up to the first one that does not decline are read, and that one decides. -/
theorem Faithful.select_append_cons (h : m.Faithful) (hbefore : ∀ b ∈ before, b.Declines params)
    (harm : ¬ arm.Declines params) (after : List Arm) (otherwise : Option String) :
    m.select ⟨before ++ arm :: after, otherwise⟩ params =
      ((arm.verdict params).map fun _ => some arm.template, m.afterReading (before ++ [arm])) := by
  obtain ⟨hmatch, htried⟩ := Arm.firstMatch_append_cons hbefore harm after
  refine Prod.ext ?_ ?_
  · rw [(h.select _ params).1, Conditional.choice, hmatch]
    cases arm.verdict params <;> rfl
  · rw [h.select_eq_foldl, htried]
    rfl

/-! ### What a selection adds to the memo -/

/-- What the second memo remembers, the first one does, or it is what the condition of one of the
arms is read as. -/
def AddsOnly (m : Memo) (arms : List Arm) (m' : Memo) : Prop :=
  m'.recent.Holds fun source found => (source, found) ∈ m.recent.entries ∨
    ∃ arm ∈ arms, arm.condition = source ∧ Condition.compile source = .ok found.condition

/-- Reading the condition of an arm adds at most this condition. -/
theorem AddsOnly.compile {m' : Memo} (h : m.AddsOnly arms m') (harm : arm ∈ arms) :
    m.AddsOnly arms (m'.compile arm.condition).2 :=
  holds_compile h fun _ hread => Or.inr ⟨arm, harm, rfl, hread⟩

theorem addsOnly_afterReading (m : Memo) (arms : List Arm) :
    m.AddsOnly arms (m.afterReading arms) := by
  -- By induction on the arms that are read, for every memo that was reached by reading others.
  have hread : ∀ (read : List Arm) (m' : Memo), (∀ arm ∈ read, arm ∈ arms) → m.AddsOnly arms m' →
      m.AddsOnly arms (m'.afterReading read) := by
    intro read
    induction read with
    | nil => exact fun m' _ h => h
    | cons arm read ih =>
      intro m' hsub h
      obtain ⟨harm, hrest⟩ := List.forall_mem_cons.mp hsub
      exact ih _ hrest (h.compile harm)
  exact hread arms m (fun _ h => h) fun _ hentry => Or.inl hentry

/-! ### Every memo that is reached -/

/-- **The first arm that does not decline decides**, for every memo that readings, selections and
clearings lead to. Where all arms decline, the default is selected. Otherwise the first one that
does not is selected, or it fails by the fault of its condition or by the failure to evaluate it;
what stands after it, and the default, could be anything else, with the same result and the same
memo. Either way the memo remembers nothing new but conditions of the arms up to that one, each as
it is read. -/
theorem first_arm_decides (capacity : Nat) (ops : List Operation) (c : Conditional)
    (params : Params) :
    let m := ((Watched.start capacity).run ops).memo
    ((∀ arm ∈ c.arms, arm.Declines params) →
      (m.select c params).1 = .ok c.otherwise ∧ m.AddsOnly c.arms (m.select c params).2) ∧
    (∀ before arm after, c.arms = before ++ arm :: after →
      (∀ b ∈ before, b.Declines params) → ¬ arm.Declines params →
        (∀ fault, Condition.compile arm.condition = .error fault →
          (m.select c params).1 = .error (.conditionFault fault)) ∧
        (∀ condition, Condition.compile arm.condition = .ok condition →
          (∀ failure, condition.holds params = .error failure →
            (m.select c params).1 = .error failure) ∧
          (condition.holds params = .ok true → (m.select c params).1 = .ok (some arm.template))) ∧
        (∀ after' otherwise',
          m.select ⟨before ++ arm :: after', otherwise'⟩ params = m.select c params) ∧
        m.AddsOnly (before ++ [arm]) (m.select c params).2) := by
  intro m
  have hfaithful : m.Faithful := (Watched.sound_run capacity ops).faithful
  constructor
  · intro hall
    rw [hfaithful.select_of_declines hall]
    exact ⟨rfl, m.addsOnly_afterReading c.arms⟩
  · rcases c with ⟨arms, otherwise⟩
    rintro before arm after rfl hbefore harm
    have hselect := hfaithful.select_append_cons hbefore harm
    rw [hselect after otherwise]
    refine ⟨?_, ?_, hselect, m.addsOnly_afterReading _⟩
    · intro fault hread
      simp [Arm.verdict, hread, Except.map]
    · intro condition hread
      constructor
      · intro failure hholds
        simp [Arm.verdict, hread, hholds, Except.map]
      · intro hholds
        simp [Arm.verdict, hread, hholds, Except.map]

/-- An arm that declines leaves the choice to the default. One that lacks a parameter decides,
although the next one would apply; the memo has room for one condition, and reading that of the arm
pushes out the one before it. -/
theorem first_arm_decides_lacking :
    let m := ((Watched.start 1).run [.compile "b = 1"]).memo
    let c : Conditional := ⟨[⟨"false", "x"⟩, ⟨"a > 1", "y"⟩, ⟨"true", "z"⟩], some "w"⟩
    (m.select ⟨[⟨"false", "x"⟩], some "w"⟩ .empty).1 = .ok (some "w") ∧
      (m.select c .empty).1 = .error (.unresolvedParameter "a") ∧
      m.select ⟨[⟨"false", "x"⟩, ⟨"a > 1", "y"⟩], none⟩ .empty = m.select c .empty ∧
      m.AddsOnly [⟨"false", "x"⟩, ⟨"a > 1", "y"⟩] (m.select c .empty).2 := by
  intro m c
  have hfirst : ∀ b ∈ [(⟨"false", "x"⟩ : Arm)], b.Declines .empty :=
    List.forall_mem_singleton.mpr ⟨⟨"false", .literal (.boolean false)⟩, rfl, rfl⟩
  have hverdict : (⟨"a > 1", "y"⟩ : Arm).verdict .empty = .error (.unresolvedParameter "a") := rfl
  have hsecond : ¬ (⟨"a > 1", "y"⟩ : Arm).Declines .empty := by
    rw [Arm.declines_iff, hverdict]
    simp
  obtain ⟨hdefault, -⟩ := (first_arm_decides 1 [.compile "b = 1"] ⟨_, some "w"⟩ .empty).1 hfirst
  obtain ⟨-, hevaluated, hsame, hadds⟩ :=
    (first_arm_decides 1 [.compile "b = 1"] c .empty).2 [_] _ [_] rfl hfirst hsecond
  have hlacking := (hevaluated ⟨"a > 1", .compare .gt (.param "a") (.literal (.integer 1))⟩ rfl).1
  exact ⟨hdefault, hlacking _ rfl, hsame [] none, hadds⟩

end Memo

end Phrasebook
