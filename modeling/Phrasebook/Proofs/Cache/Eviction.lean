import Phrasebook.Proofs.Cache.Memo
import Phrasebook.Proofs.Cache.Shards

/-!
# The caches keep what was used most recently

Selecting the template of a conditional reads the conditions of its arms, up to the first one that
does not say no, and does nothing else to the memo (`Memo.Faithful.select_eq_foldl`). So the memo is
used by readings alone, and like a store of one shard it keeps exactly what was used recently
(`caches_keep_recent`): what is found, and whether anything is, follows from the history of uses.
-/

namespace Phrasebook

open Recent (Event Log)

/-- The conditions that are read when the template of a conditional is selected: those of the arms
up to the first one that applies or fails. -/
def Arm.tried (params : Params) : List Arm → List String
  | [] => []
  | arm :: rest =>
    arm.condition ::
      match arm.verdict params with
      | .ok false => tried params rest
      | _ => []

namespace Memo

/-- What reading a text does to the entries: a text that is remembered is found, and one that can be
read is stored. -/
def event? (m : Memo) (source : String) : Option (Event String Remembered) :=
  match (m.recent.get? source).1 with
  | some _ => some (.found source)
  | none =>
    (Condition.compile source).toOption.map fun condition =>
      .stored source ⟨m.readings, condition⟩

/-- One operation on a memo. -/
inductive Operation where
  /-- Read a text. -/
  | compile (source : String)
  /-- Select the template of a conditional. -/
  | select (c : Conditional) (params : Params)
  /-- Forget all conditions. -/
  | clear

/-- A memo that is watched. -/
structure Watched where
  /-- The memo. -/
  memo : Memo
  /-- The uses of the memo, the latest first. -/
  log : Log String Remembered := []

namespace Watched

/-- A new memo. -/
def start (capacity : Nat) : Watched :=
  { memo := .ofCapacity capacity }

/-- Reads a text and logs it. -/
def read (w : Watched) (source : String) : Watched :=
  { memo := (w.memo.compile source).2, log := (w.memo.event? source).toList ++ w.log }

/-- Performs an operation and logs it. Selecting a template logs the conditions that are read. -/
def step (w : Watched) : Operation → Watched
  | .compile source => w.read source
  | .select c params =>
    { memo := (w.memo.select c params).2, log := ((Arm.tried params c.arms).foldl read w).log }
  | .clear => { memo := w.memo.clear, log := .cleared :: w.log }

/-- Performs operations in order. -/
def run (w : Watched) (ops : List Operation) : Watched :=
  ops.foldl step w

end Watched

/-! ### Readings -/

section Readings

variable {m : Memo} {source : String} {found : Remembered}

/-- A text that is remembered is not read again. -/
theorem compile_of_get?_eq_some (h : (m.recent.get? source).1 = some found) :
    m.compile source = (.ok found, { m with recent := (m.recent.get? source).2 }) := by
  unfold compile
  rcases hget : m.recent.get? source with ⟨_ | found', recent⟩ <;> rw [hget] at h <;> cases h
  rfl

/-- A text that can be read is remembered with what it was read as. -/
theorem compile_of_ok {condition : Condition.Compiled} (h : (m.recent.get? source).1 = none)
    (hread : Condition.compile source = .ok condition) :
    m.compile source = (.ok ⟨m.readings, condition⟩,
      { recent := m.recent.insert source ⟨m.readings, condition⟩,
        readings := m.readings + 1 }) := by
  unfold compile
  rcases hget : m.recent.get? source with ⟨_ | found', recent⟩ <;> rw [hget] at h <;> cases h
  rw [hread]

/-- A text that cannot be read changes nothing. -/
theorem compile_of_error {fault : Condition.Fault} (h : (m.recent.get? source).1 = none)
    (hread : Condition.compile source = .error fault) :
    m.compile source = (.error fault, m) := by
  unfold compile
  rcases hget : m.recent.get? source with ⟨_ | found', recent⟩ <;> rw [hget] at h <;> cases h
  rw [hread]

/-- Reading a text finds it, or reads and remembers it, or fails. -/
theorem compile_cases (m : Memo) (source : String) :
    (∃ found, (m.recent.get? source).1 = some found ∧ m.event? source = some (.found source) ∧
      m.compile source = (.ok found, { m with recent := (m.recent.get? source).2 })) ∨
    (∃ read : Remembered, m.event? source = some (.stored source read) ∧
      m.compile source =
        (.ok read, { recent := m.recent.insert source read, readings := m.readings + 1 })) ∨
    (∃ fault, m.event? source = none ∧ m.compile source = (.error fault, m)) := by
  cases hget : (m.recent.get? source).1 with
  | some found => exact Or.inl ⟨found, rfl, by simp [event?, hget], compile_of_get?_eq_some hget⟩
  | none =>
    have hevent : m.event? source = (Condition.compile source).toOption.map fun condition =>
        .stored source ⟨m.readings, condition⟩ := by simp [event?, hget]
    rw [hevent]
    cases hread : Condition.compile source with
    | ok condition => exact Or.inr (Or.inl ⟨_, rfl, compile_of_ok hget hread⟩)
    | error fault => exact Or.inr (Or.inr ⟨fault, rfl, compile_of_error hget hread⟩)

/-- Reading a text leaves a memo that follows the log. -/
theorem Watched.traces_read {w : Watched} (h : w.memo.recent.Traces w.log) (source : String) :
    (w.read source).memo.recent.Traces (w.read source).log ∧
      (w.read source).memo.recent.capacity = w.memo.recent.capacity := by
  unfold Watched.read
  rcases w.memo.compile_cases source with
    ⟨found, hget, hevent, hresult⟩ | ⟨read, hevent, hresult⟩ | ⟨fault, hevent, hresult⟩
  · rw [hevent, hresult]
    exact ⟨h.get? hget, w.memo.recent.capacity_get? source⟩
  · rw [hevent, hresult]
    exact ⟨h.insert source read, rfl⟩
  · rw [hevent, hresult]
    exact ⟨h, rfl⟩

/-- A text that cannot be read is no use. -/
theorem Watched.read_of_error {w : Watched} {fault : Condition.Fault}
    (h : (w.memo.compile source).1 = .error fault) : w.read source = w := by
  rcases w.memo.compile_cases source with
    ⟨found, -, -, hresult⟩ | ⟨read, -, hresult⟩ | ⟨fault', hevent, hresult⟩
  · rw [hresult] at h
    cases h
  · rw [hresult] at h
    cases h
  · rw [Watched.read, hevent, hresult]
    rfl

end Readings

/-! ### Selecting reads conditions -/

/-- Selecting a template reads the conditions that are tried, in order. -/
theorem Faithful.select_eq_foldl {m : Memo} (h : m.Faithful) (c : Conditional) (params : Params) :
    (m.select c params).2 =
      (Arm.tried params c.arms).foldl (fun m source => (m.compile source).2) m := by
  have harms : ∀ arms : List Arm, ∀ m : Memo, m.Faithful → (m.selectArm params arms).2 =
      (Arm.tried params arms).foldl (fun m source => (m.compile source).2) m := by
    intro arms
    induction arms with
    | nil => exact fun m h => rfl
    | cons arm rest ih =>
      intro m h
      -- The memo is faithful, so the verdict on the arm is the one that the text leads to.
      obtain ⟨hread, hkept⟩ := h.compile arm.condition
      rw [Memo.selectArm, Arm.tried, List.foldl_cons]
      rcases hcompile : m.compile arm.condition with ⟨fault | found, m'⟩ <;>
        rw [hcompile] at hread hkept <;> simp only [Arm.verdict, ← hread, Except.map]
      · rfl
      · rcases found.condition.holds params with failure | _ | _
        · rfl
        · exact ih m' hkept
        · rfl
  rw [← harms c.arms m h, Memo.select]
  split <;> simp [*]

namespace Watched

variable {w : Watched}

theorem memo_foldl_read (sources : List String) :
    (sources.foldl read w).memo =
      sources.foldl (fun m source => (m.compile source).2) w.memo := by
  induction sources generalizing w with
  | nil => rfl
  | cons source sources ih => exact ih

/-- For a faithful memo, selecting a template is reading the conditions that are tried. -/
theorem step_select (h : w.memo.Faithful) (c : Conditional) (params : Params) :
    w.step (.select c params) = (Arm.tried params c.arms).foldl read w := by
  rw [step, h.select_eq_foldl c params, ← memo_foldl_read]

/-- A faithful memo of a capacity that follows its log. -/
structure Sound (capacity : Nat) (w : Watched) : Prop where
  /-- The memo holds what reading its texts yields. -/
  faithful : w.memo.Faithful
  /-- The entries follow the log. -/
  traces : w.memo.recent.Traces w.log
  /-- The capacity never changes. -/
  capacity : w.memo.recent.capacity = capacity

variable {capacity : Nat}

theorem Sound.read (h : w.Sound capacity) (source : String) :
    (w.read source).Sound capacity := by
  obtain ⟨htraces, hcapacity⟩ := traces_read h.traces source
  exact ⟨(h.faithful.compile source).2, htraces, hcapacity.trans h.capacity⟩

theorem Sound.step (h : w.Sound capacity) (op : Operation) : (w.step op).Sound capacity := by
  cases op with
  | compile source => exact h.read source
  | clear => exact ⟨Memo.faithful_clear, Recent.Traces.clear _ _, h.capacity⟩
  | select c params =>
    rw [step_select h.faithful]
    generalize Arm.tried params c.arms = sources
    induction sources generalizing w with
    | nil => exact h
    | cons source sources ih => exact ih (h.read source)

/-- After every run the memo is faithful and follows its log. -/
theorem sound_run (capacity : Nat) (ops : List Operation) :
    ((start capacity).run ops).Sound capacity := by
  have hrun : ∀ w : Watched, w.Sound capacity → (w.run ops).Sound capacity := by
    induction ops with
    | nil => exact fun w h => h
    | cons op ops ih => exact fun w h => ih (w.step op) (h.step op)
  exact hrun _ ⟨Memo.faithful_ofCapacity capacity, Recent.traces_new capacity, rfl⟩

end Watched

end Memo

/-- **The caches keep what was used most recently.** After every run a store of one shard finds a
text for a request if and only if it is the text stored last for it since the store was dropped, and
fewer distinct other requests than the store has room for were used since the request was. What is
found is not computed again, and a computation that fails is no use. The same holds of the memo,
which reading and selecting use. Without capacity nothing is kept. -/
theorem caches_keep_recent :
    (∀ (route : Request → Nat) (capacity shards : Nat), shardCount capacity shards ≤ 1 →
      ∀ {ε σ : Type} (state : σ) (ops : List (Answers.Operation ε σ)) (r : Request),
        let w := (Answers.Watched.start route capacity shards state).run ops
        (∀ text, (w.answers.get? r).1 = some text ↔ w.log.Kept capacity r text) ∧
        (∀ (compute : σ → Except ε String × σ) (text : String), w.log.Kept capacity r text →
          w.answers.getOrCompute r w.state compute = (.ok text, (w.answers.get? r).2, w.state)) ∧
        (∀ (compute : σ → Except ε String × σ) (failure : ε),
          (w.answers.getOrCompute r w.state compute).1 = .error failure →
            (w.step (.getOrCompute r compute)).log = w.log ∧
              (w.step (.getOrCompute r compute)).answers.shards = w.answers.shards)) ∧
    (∀ (capacity : Nat) (ops : List Memo.Operation) (source : String),
      let w := (Memo.Watched.start capacity).run ops
      (∀ found, (w.memo.recent.get? source).1 = some found ↔ w.log.Kept capacity source found) ∧
      (∀ found, w.log.Kept capacity source found →
        (w.memo.compile source).1 = .ok found ∧
          (w.memo.compile source).2.readings = w.memo.readings) ∧
      (∀ fault, (w.memo.compile source).1 = .error fault →
        w.step (.compile source) = w)) ∧
    (∀ (route : Request → Nat) (shards : Nat) {ε σ : Type} (state : σ)
      (ops : List (Answers.Operation ε σ)),
      ((Answers.Watched.start route 0 shards state).run ops).answers.size = 0) ∧
    (∀ ops, ((Memo.Watched.start 0).run ops).memo.size = 0) := by
  refine ⟨?_, ?_, ?_, ?_⟩
  · intro route capacity shards hone ε σ state ops r w
    have hfound := (Answers.Watched.traces_run route capacity shards state
      ops).get?_eq_some_iff_of_shardCount_le_one hone r
    refine ⟨hfound, ?_, ?_⟩
    · intro compute text hkept
      exact Answers.getOrCompute_of_get?_eq_some ((hfound text).mpr hkept)
    · intro compute failure hfail
      have hanswers : (w.step (.getOrCompute r compute)).answers =
          { w.answers with misses := w.answers.misses + 1 } :=
        Answers.getOrCompute_of_eq_error w.state compute hfail
      exact ⟨Answers.Watched.log_step_of_error hfail, by rw [hanswers]⟩
  · intro capacity ops source w
    have hsound : w.Sound capacity := Memo.Watched.sound_run capacity ops
    have hfound : ∀ found, (w.memo.recent.get? source).1 = some found ↔
        w.log.Kept capacity source found := by
      intro found
      rw [Recent.fst_get?, hsound.traces.peek?_eq_some_iff, hsound.capacity]
    refine ⟨hfound, ?_, ?_⟩
    · intro found hkept
      rw [Memo.compile_of_get?_eq_some ((hfound found).mpr hkept)]
      exact ⟨rfl, rfl⟩
    · intro fault hfail
      exact Memo.Watched.read_of_error hfail
  · intro route shards ε σ state ops
    have hcapacities := (Answers.Watched.traces_run route 0 shards state ops).capacities
    rw [Answers.shardCapacities_of_shardCount_le_one (by simp [shardCount])] at hcapacities
    have hshards : ((Answers.Watched.start route 0 shards state).run ops).answers.shards = [] := by
      simpa using hcapacities
    rw [Answers.size, hshards]
    rfl
  · intro ops
    have hsound := Memo.Watched.sound_run 0 ops
    have hkeys := hsound.traces.keys
    rw [hsound.capacity, List.take_zero, List.map_eq_nil_iff] at hkeys
    rw [Memo.size, Recent.size, hkeys]
    rfl

/-- A request without parameters. -/
def plainRequest (key : String) : Request :=
  { key, locale := "en", fallback := none, generation := 1, params := .empty }

/-- A computation with a result that counts how often it runs. -/
def counted (result : Except Unit String) (calls : Nat) : Except Unit String × Nat :=
  (result, calls + 1)

/-- Operations on a store for two answers: looking `a` up protects it from `c`, but not from `b`,
which comes back after it was dropped. The failure for `d` drops nothing. -/
def returning : List (Answers.Operation Unit Nat) :=
  [.insert (plainRequest "a") "1", .insert (plainRequest "b") "2", .get (plainRequest "a"),
    .getOrCompute (plainRequest "c") (counted (.ok "3")),
    .getOrCompute (plainRequest "d") (counted (.error ())),
    .getOrCompute (plainRequest "b") (counted (.ok "4"))]

/-- The request that was dropped and came back has its new answer, which is not computed a fourth
time, and the older of the other two is gone. A memo for one condition forgets all but the one that
a conditional read last. -/
theorem caches_keep_recent_returning :
    let w := (Answers.Watched.start (fun _ => 0) 2 1 0).run returning
    let m := (Memo.Watched.start 1).run
      [.select ⟨[⟨"false", "x"⟩, ⟨"true", "y"⟩, ⟨"a > 1", "z"⟩], none⟩ .empty]
    (w.answers.get? (plainRequest "a")).1 = none ∧
      w.answers.getOrCompute (plainRequest "b") w.state (counted (.ok "5")) =
        (.ok "4", (w.answers.get? (plainRequest "b")).2, 3) ∧
      (m.memo.compile "true").2.readings = 2 ∧ (m.memo.recent.get? "false").1 = none := by
  intro w m
  obtain ⟨hanswers, hmemo, -, -⟩ := caches_keep_recent
  have hone : shardCount 2 1 ≤ 1 := by decide
  refine ⟨?_, ?_, ?_, ?_⟩
  · rw [Option.eq_none_iff_forall_ne_some]
    intro text hfound
    have hkept := ((hanswers _ 2 1 hone 0 returning (plainRequest "a")).1 text).mp hfound
    exact absurd hkept.recent (by decide +kernel)
  · have hkept : w.log.Kept 2 (plainRequest "b") "4" := by decide +kernel
    exact (hanswers _ 2 1 hone 0 returning (plainRequest "b")).2.1 _ "4" hkept
  · have hkept : m.log.Kept 1 "true" ⟨1, ⟨"true", .literal (.boolean true)⟩⟩ :=
      ⟨rfl, by decide +kernel⟩
    exact ((hmemo 1 _ "true").2.1 _ hkept).2
  · rw [Option.eq_none_iff_forall_ne_some]
    intro found hfound
    have hkept := ((hmemo 1 _ "false").1 found).mp hfound
    exact absurd hkept.recent (by decide +kernel)

end Phrasebook
