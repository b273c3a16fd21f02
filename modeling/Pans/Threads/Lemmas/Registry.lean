import Mathlib.Data.List.Nodup
import Pans.Logger.Lemmas.Graph
import Pans.Threads.Registry

/-!
# What a thread knows about the registry

At each place of its program a thread knows something of the registry, and inside the section that the mutex guards
nobody else can change that.
-/

namespace Pans

namespace Registry

/-! ## The registry -/

/-- The entries are loggers under their own names, one for each name. All but the root logger are linked to it. -/
structure Registered (sys : LogSystem) : Prop where
  root_mem : (ascii "root", LogSystem.root) ∈ sys.registry
  names : (sys.registry.map Prod.fst).Nodup
  loggers : (sys.registry.map Prod.snd).Nodup
  bound : ∀ name logger, (name, logger) ∈ sys.registry → logger < sys.next
  name : ∀ name logger, (name, logger) ∈ sys.registry → (sys.loggers logger).name = name ∧ name ≠ []
  root : ∀ name logger, (name, logger) ∈ sys.registry →
    (sys.loggers logger).root = if logger = LogSystem.root then none else some LogSystem.root

/-- A logger that exists and is not registered, under a name that is free. -/
structure Fresh (sys : LogSystem) (name : Bytes) (logger : LoggerId) : Prop where
  bound : logger < sys.next
  unregistered : logger ∉ sys.registry.map Prod.snd
  named : (sys.loggers logger).name = name
  nonempty : name ≠ []
  free : name ∉ sys.registry.map Prod.fst

/-- Registry, names and root links are as before. -/
structure Undisturbed (sys sys' : LogSystem) : Prop where
  registry : sys'.registry = sys.registry
  next : sys'.next = sys.next
  name : ∀ logger, (sys'.loggers logger).name = (sys.loggers logger).name
  root : ∀ logger, (sys'.loggers logger).root = (sys.loggers logger).root

theorem Undisturbed.refl (sys : LogSystem) : Undisturbed sys sys := ⟨rfl, rfl, fun _ => rfl, fun _ => rfl⟩

theorem Undisturbed.onLogger (sys : LogSystem) (logger : LoggerId) {f : Logger.Impl → Logger.Impl}
    (hname : ∀ this, (f this).name = this.name) (hroot : ∀ this, (f this).root = this.root) :
    Undisturbed sys (sys.onLogger logger f) := by
  refine ⟨rfl, rfl, fun other => ?_, fun other => ?_⟩
  · by_cases h : other = logger
    · subst h
      simp [LogSystem.onLogger, hname]
    · simp [LogSystem.onLogger, h]
  · by_cases h : other = logger
    · subst h
      simp [LogSystem.onLogger, hroot]
    · simp [LogSystem.onLogger, h]

theorem undisturbed_of_perform {render : Formatter → LogRecordView → Bytes} {sys sys' : LogSystem}
    {op : LogSystem.Op} (h : perform render sys op = some sys') : Undisturbed sys sys' := by
  cases op with
  | getLogger => cases h
  | setLevel | setFormatter | addAppender | removeAppender | clearAppenders =>
      cases h
      exact .onLogger _ _ (fun _ => rfl) (fun _ => rfl)
  | setAppenderLevel =>
      cases h
      exact ⟨rfl, rfl, fun _ => rfl, fun _ => rfl⟩
  | log =>
      obtain ⟨appenders, _, rfl⟩ := Option.map_eq_some_iff.mp h
      exact ⟨rfl, rfl, fun _ => rfl, fun _ => rfl⟩

theorem lookup_mem {registry : List (Bytes × LoggerId)} {name : Bytes} {logger : LoggerId}
    (h : registry.lookup name = some logger) : (name, logger) ∈ registry := by
  obtain ⟨before, after, rfl, _⟩ := List.lookup_eq_some_iff.mp h
  simp

theorem lookup_eq_none {registry : List (Bytes × LoggerId)} {name : Bytes} (h : registry.lookup name = none) :
    name ∉ registry.map Prod.fst := by
  rw [List.lookup_eq_none_iff] at h
  intro hmem
  obtain ⟨entry, hentry, rfl⟩ := List.mem_map.mp hmem
  simpa using h entry hentry

theorem lookup_of_free {registry : List (Bytes × LoggerId)} {name : Bytes} (h : name ∉ registry.map Prod.fst) :
    registry.lookup name = none := by
  rw [List.lookup_eq_none_iff]
  intro entry hentry
  simpa using fun heq : name = entry.1 => h (heq ▸ List.mem_map_of_mem hentry)

theorem registered_initial : Registered LogSystem.initial := by
  have hmem : ∀ name logger, (name, logger) ∈ LogSystem.initial.registry →
      name = ascii "root" ∧ logger = LogSystem.root := by
    simp [LogSystem.initial]
  have hroot : LogSystem.initial.loggers LogSystem.root =
      (Logger.Impl.new (ascii "root")).addAppender LogSystem.stdout := by
    simp [LogSystem.initial]
  refine ⟨by simp [LogSystem.initial], by simp [LogSystem.initial], by simp [LogSystem.initial], ?_, ?_, ?_⟩
  · intro name logger h
    obtain ⟨rfl, rfl⟩ := hmem name logger h
    exact Nat.one_pos
  · intro name logger h
    obtain ⟨rfl, rfl⟩ := hmem name logger h
    rw [hroot]
    exact ⟨rfl, by decide⟩
  · intro name logger h
    obtain ⟨rfl, rfl⟩ := hmem name logger h
    rw [hroot]
    rfl

section

variable {sys sys' : LogSystem} {name : Bytes} {logger : LoggerId}

theorem Registered.of_undisturbed (h : Registered sys) (hsame : Undisturbed sys sys') : Registered sys' := by
  refine ⟨?_, ?_, ?_, ?_, ?_, ?_⟩ <;>
    simp only [hsame.registry, hsame.next, hsame.name, hsame.root]
  exacts [h.root_mem, h.names, h.loggers, h.bound, h.name, h.root]

theorem Fresh.of_undisturbed (h : Fresh sys name logger) (hsame : Undisturbed sys sys') : Fresh sys' name logger := by
  refine ⟨?_, ?_, ?_, h.nonempty, ?_⟩ <;> simp only [hsame.registry, hsame.next, hsame.name]
  exacts [h.bound, h.unregistered, h.named, h.free]

/-- A change to a logger that is not registered. -/
theorem Registered.of_unregistered (h : Registered sys) (impl : Logger.Impl) {next : LoggerId} (hnext : sys.next ≤ next)
    (hlogger : logger ∉ sys.registry.map Prod.snd) :
    Registered { sys with loggers := Function.update sys.loggers logger impl, next } := by
  have hsame : ∀ name other, (name, other) ∈ sys.registry →
      Function.update sys.loggers logger impl other = sys.loggers other := by
    intro name other hmem
    refine Function.update_of_ne ?_ _ _
    rintro rfl
    exact hlogger (List.mem_map.mpr ⟨_, hmem, rfl⟩)
  refine ⟨h.root_mem, h.names, h.loggers, fun name other hmem => ?_,
    fun name other hmem => ?_, fun name other hmem => ?_⟩
  · exact Nat.lt_of_lt_of_le (h.bound name other hmem) hnext
  · show (Function.update sys.loggers logger impl other).name = name ∧ name ≠ []
    rw [hsame name other hmem]
    exact h.name name other hmem
  · show (Function.update sys.loggers logger impl other).root = _
    rw [hsame name other hmem]
    exact h.root name other hmem

theorem Registered.next_unregistered (h : Registered sys) : sys.next ∉ sys.registry.map Prod.snd := by
  intro hmem
  obtain ⟨⟨name, logger⟩, hentry, heq⟩ := List.mem_map.mp hmem
  exact Nat.lt_irrefl _ (heq ▸ h.bound name logger hentry)

theorem Registered.root_ne (h : Registered sys) (hfresh : Fresh sys name logger) : logger ≠ LogSystem.root := by
  rintro rfl
  exact hfresh.unregistered (List.mem_map.mpr ⟨_, h.root_mem, rfl⟩)

theorem Fresh.emplaced (h : Fresh sys name logger) :
    emplaced sys logger = { sys with registry := sys.registry ++ [(name, logger)] } := by
  rw [Registry.emplaced, h.named, lookup_of_free h.free]

theorem Registered.emplaced (h : Registered sys) (hfresh : Fresh sys name logger)
    (hroot : (sys.loggers logger).root = some LogSystem.root) : Registered (emplaced sys logger) := by
  rw [hfresh.emplaced]
  have hmem : ∀ other l, (other, l) ∈ sys.registry ++ [(name, logger)] ↔
      (other, l) ∈ sys.registry ∨ other = name ∧ l = logger := by simp
  constructor
  case root_mem => exact List.mem_append_left _ h.root_mem
  case names =>
      rw [List.map_append, List.nodup_append]
      exact ⟨h.names, by simp, fun a ha b hb => by
        obtain rfl : b = name := by simpa using hb
        rintro rfl
        exact hfresh.free ha⟩
  case loggers =>
      rw [List.map_append, List.nodup_append]
      exact ⟨h.loggers, by simp, fun a ha b hb => by
        obtain rfl : b = logger := by simpa using hb
        rintro rfl
        exact hfresh.unregistered ha⟩
  case bound =>
      intro other l hl
      rcases (hmem other l).mp hl with hl | ⟨rfl, rfl⟩
      · exact h.bound other l hl
      · exact hfresh.bound
  case name =>
      intro other l hl
      rcases (hmem other l).mp hl with hl | ⟨rfl, rfl⟩
      · exact h.name other l hl
      · exact ⟨hfresh.named, hfresh.nonempty⟩
  case root =>
      intro other l hl
      rcases (hmem other l).mp hl with hl | ⟨rfl, rfl⟩
      · exact h.root other l hl
      · exact hroot.trans (if_neg (h.root_ne hfresh)).symm

/-- An entry says which logger a name has, and which name a logger. -/
theorem Registered.entry_iff (h : Registered sys) {name' : Bytes} {logger' : LoggerId}
    (hmem : (name, logger) ∈ sys.registry) (hmem' : (name', logger') ∈ sys.registry) :
    name = name' ↔ logger = logger' := by
  constructor
  · rintro rfl
    exact congrArg Prod.snd (List.inj_on_of_nodup_map h.names hmem hmem' rfl)
  · rintro rfl
    exact congrArg Prod.fst (List.inj_on_of_nodup_map h.loggers hmem hmem' rfl)

end

/-! ## Threads -/

/-- What a call may come back with. -/
def Answers (sys : LogSystem) : Call → Result → Prop
  | .getRootLogger, result => result = .returned (some LogSystem.root)
  | .getLogger name, .returned none => name = []
  | .getLogger name, .returned (some logger) => (name, logger) ∈ sys.registry
  | .getLogger name, .threw => name ≠ []

theorem Answers.mono {sys sys' : LogSystem} {call : Call} {result : Result} (h : Answers sys call result)
    (hsub : sys.registry ⊆ sys'.registry) : Answers sys' call result := by
  cases call with
  | getRootLogger => exact h
  | getLogger name =>
      rcases result with (_ | logger) | _
      · exact h
      · exact hsub h
      · exact h

section

variable {T : Type} {s s' : Shared T} {t u : T} {pc pc' : Pc}

/-- What a thread knows at each place of its program. -/
def Knows (s : Shared T) (t : T) : Pc → Prop
  | .lock name => name ≠ []
  | .find name => s.mutex.Held t ∧ name ≠ []
  | .makeShared name => s.mutex.Held t ∧ name ≠ [] ∧ name ∉ s.manager.registry.map Prod.fst
  | .setRoot name logger => s.mutex.Held t ∧ Fresh s.manager name logger
  | .emplace name logger => s.mutex.Held t ∧ Fresh s.manager name logger ∧
      (s.manager.loggers logger).root = some LogSystem.root
  | .unlock name result => s.mutex.Held t ∧ name ≠ [] ∧ Answers s.manager (.getLogger name) result
  | .ret call result => Answers s.manager call result
  | _ => True

structure Invariant (history : List (T × Op)) (s : Shared T) (t : T) (pc : Pc) : Prop where
  registered : Registered s.manager
  answered : ∀ u call result, (u, .ret call result) ∈ history → Answers s.manager call result
  knows : Knows s t pc

/-- What a step leaves behind for the thread that takes it. -/
structure Kept (s s' : Shared T) (t : T) (pc' : Pc) : Prop where
  registered : Registered s'.manager
  registry : s.manager.registry ⊆ s'.manager.registry
  knows : Knows s' t pc'

theorem Kept.of_same (hreg : Registered s.manager) (hknows : Knows s t pc') : Kept s s t pc' :=
  ⟨hreg, List.Subset.refl _, hknows⟩

theorem Kept.of_manager (hreg : Registered s.manager) (hmanager : s'.manager = s.manager)
    (hknows : Knows s' t pc') : Kept s s' t pc' :=
  ⟨hmanager ▸ hreg, hmanager ▸ List.Subset.refl _, hknows⟩

theorem kept_makeShared {name : Bytes} (hreg : Registered s.manager) (hknows : Knows s t (.makeShared name)) :
    let sys := s.manager
    let loggers := Function.update sys.loggers sys.next (Logger.Impl.new name)
    Kept s { s with manager := { sys with loggers, next := sys.next + 1 } } t (.setRoot name sys.next) := by
  obtain ⟨hheld, hname, hfree⟩ := hknows
  refine ⟨hreg.of_unregistered _ (Nat.le_succ _) hreg.next_unregistered, List.Subset.refl _, hheld, ?_⟩
  refine ⟨Nat.lt_succ_self _, hreg.next_unregistered, ?_, hname, hfree⟩
  simp [Logger.Impl.new]

theorem kept_setRoot {name : Bytes} {logger : LoggerId} (hreg : Registered s.manager)
    (hknows : Knows s t (.setRoot name logger)) :
    Kept s { s with manager := s.manager.onLogger logger (·.setRoot LogSystem.root) } t (.emplace name logger) := by
  obtain ⟨hheld, hfresh⟩ := hknows
  refine ⟨hreg.of_unregistered _ (Nat.le_refl _) hfresh.unregistered, List.Subset.refl _, hheld, ?_, ?_⟩
  · refine ⟨hfresh.bound, hfresh.unregistered, ?_, hfresh.nonempty, hfresh.free⟩
    simpa [LogSystem.onLogger, Logger.Members.setRoot] using hfresh.named
  · simp [LogSystem.onLogger, Logger.Members.setRoot]

theorem kept_emplace {name : Bytes} {logger : LoggerId} (hreg : Registered s.manager)
    (hknows : Knows s t (.emplace name logger)) :
    Kept s { s with manager := emplaced s.manager logger } t (.unlock name (.returned (some logger))) := by
  obtain ⟨hheld, hfresh, hroot⟩ := hknows
  refine ⟨hreg.emplaced hfresh hroot, ?_, hheld, hfresh.nonempty, ?_⟩
  · show s.manager.registry ⊆ (emplaced s.manager logger).registry
    rw [hfresh.emplaced]
    exact List.subset_append_left _ _
  · show (name, logger) ∈ (emplaced s.manager logger).registry
    rw [hfresh.emplaced]
    exact List.mem_append_right _ (List.mem_singleton.mpr rfl)

variable [DecidableEq T] {render : Formatter → LogRecordView → Bytes} {op : Op} {choice : Choice}

/-- What a step of a thread can do to what is shared: change nothing that matters, take or release the mutex, or work
on the registry inside the section. -/
theorem move_cases (h : move render t s pc choice = some (op, s', pc')) :
    (Undisturbed s.manager s'.manager ∧ s'.mutex = s.mutex) ∨
    (s'.manager = s.manager ∧ s.mutex.lock t = some s'.mutex) ∨
    (s'.manager = s.manager ∧ s.mutex.unlock t = some s'.mutex) ∨
    (s'.mutex = s.mutex ∧ ((∃ name, pc = .makeShared name) ∨ (∃ name logger, pc = .setRoot name logger) ∨
      ∃ name logger, pc = .emplace name logger)) := by
  have hsame : Undisturbed s.manager s.manager ∧ s.mutex = s.mutex := ⟨.refl _, rfl⟩
  cases pc <;> cases choice <;> simp only [move, reduceCtorEq] at h
  case idle.other other =>
      obtain ⟨sys, hsys, heq⟩ := Option.map_eq_some_iff.mp h
      cases heq
      exact .inl ⟨undisturbed_of_perform hsys, rfl⟩
  case lock.proceed name =>
      obtain ⟨mutex, hmutex, heq⟩ := Option.map_eq_some_iff.mp h
      cases heq
      exact .inr (.inl ⟨rfl, hmutex⟩)
  case unlock.proceed name result =>
      obtain ⟨mutex, hmutex, heq⟩ := Option.map_eq_some_iff.mp h
      cases heq
      exact .inr (.inr (.inl ⟨rfl, hmutex⟩))
  case makeShared.proceed name =>
      cases h
      exact .inr (.inr (.inr ⟨rfl, .inl ⟨name, rfl⟩⟩))
  case setRoot.proceed name logger =>
      cases h
      exact .inr (.inr (.inr ⟨rfl, .inr (.inl ⟨name, logger, rfl⟩)⟩))
  case emplace.proceed name logger =>
      cases h
      exact .inr (.inr (.inr ⟨rfl, .inr (.inr ⟨name, logger, rfl⟩)⟩))
  case checkName.proceed | find.proceed =>
      split at h <;> cases h <;> exact .inl hsame
  all_goals
    cases h
    exact .inl hsame

/-- Whoever holds the mutex sees the other threads change nothing that matters. -/
theorem held_undisturbed (hne : u ≠ t) (hheld : s.mutex.Held u) (hknows : Knows s t pc)
    (h : move render t s pc choice = some (op, s', pc')) :
    Undisturbed s.manager s'.manager ∧ s'.mutex.Held u := by
  rcases move_cases h with ⟨hsame, hmutex⟩ | ⟨_, hlock⟩ | ⟨_, hunlock⟩ | ⟨_, hsection⟩
  · exact ⟨hsame, hmutex ▸ hheld⟩
  · exact absurd hheld (Mutex.lock_free hlock)
  · exact absurd (hheld.unique (Mutex.unlock_held hunlock)) hne
  · have hheld' : s.mutex.Held t := by
      rcases hsection with ⟨_, rfl⟩ | ⟨_, _, rfl⟩ | ⟨_, _, rfl⟩ <;> exact hknows.1
    exact absurd (hheld.unique hheld') hne

theorem Knows.other {pcu : Pc} (hu : Knows s u pcu) (hne : u ≠ t) (hknows : Knows s t pc)
    (h : move render t s pc choice = some (op, s', pc'))
    (hsub : s.manager.registry ⊆ s'.manager.registry) : Knows s' u pcu := by
  cases pcu with
  | find name => exact ⟨(held_undisturbed hne hu.1 hknows h).2, hu.2⟩
  | makeShared name =>
      obtain ⟨hsame, hheld⟩ := held_undisturbed hne hu.1 hknows h
      exact ⟨hheld, hu.2.1, hsame.registry ▸ hu.2.2⟩
  | setRoot name logger =>
      obtain ⟨hsame, hheld⟩ := held_undisturbed hne hu.1 hknows h
      exact ⟨hheld, hu.2.of_undisturbed hsame⟩
  | emplace name logger =>
      obtain ⟨hsame, hheld⟩ := held_undisturbed hne hu.1 hknows h
      exact ⟨hheld, hu.2.1.of_undisturbed hsame, (hsame.root logger).trans hu.2.2⟩
  | unlock name result => exact ⟨(held_undisturbed hne hu.1 hknows h).2, hu.2.1, hu.2.2.mono hsub⟩
  | ret call result => exact Answers.mono hu hsub
  | lock name => exact hu
  | _ => trivial

theorem kept (hreg : Registered s.manager) (hknows : Knows s t pc)
    (h : move render t s pc choice = some (op, s', pc')) : Kept s s' t pc' := by
  cases pc <;> cases choice <;> simp only [move, reduceCtorEq] at h
  case idle.call call =>
      cases h
      exact .of_same hreg (by cases call <;> trivial)
  case idle.other other =>
      obtain ⟨sys, hsys, heq⟩ := Option.map_eq_some_iff.mp h
      cases heq
      have hsame := undisturbed_of_perform hsys
      exact ⟨hreg.of_undisturbed hsame, hsame.registry ▸ List.Subset.refl _, trivial⟩
  case getRoot.proceed =>
      cases h
      exact .of_same hreg rfl
  case checkName.proceed name =>
      split at h <;> cases h
      · rename_i hempty
        exact .of_same hreg (List.isEmpty_iff.mp hempty)
      · rename_i hname
        exact .of_same hreg (by simpa [Knows] using hname)
  case lock.proceed name =>
      obtain ⟨mutex, hmutex, heq⟩ := Option.map_eq_some_iff.mp h
      cases heq
      exact .of_manager hreg rfl ⟨Mutex.lock_held hmutex, hknows⟩
  case find.proceed name =>
      split at h <;> cases h
      · rename_i hfound
        exact .of_same hreg ⟨hknows.1, hknows.2, lookup_mem hfound⟩
      · rename_i hfound
        exact .of_same hreg ⟨hknows.1, hknows.2, lookup_eq_none hfound⟩
  case makeShared.proceed =>
      cases h
      exact kept_makeShared hreg hknows
  case setRoot.proceed =>
      cases h
      exact kept_setRoot hreg hknows
  case emplace.proceed =>
      cases h
      exact kept_emplace hreg hknows
  case find.throw =>
      cases h
      exact .of_same hreg ⟨hknows.1, hknows.2, hknows.2⟩
  case makeShared.throw =>
      cases h
      exact .of_same hreg ⟨hknows.1, hknows.2.1, hknows.2.1⟩
  case emplace.throw =>
      cases h
      exact .of_same hreg ⟨hknows.1, hknows.2.1.nonempty, hknows.2.1.nonempty⟩
  case unlock.proceed name result =>
      obtain ⟨mutex, hmutex, heq⟩ := Option.map_eq_some_iff.mp h
      cases heq
      exact .of_manager hreg rfl hknows.2.2
  case ret.proceed call result =>
      cases h
      exact .of_same hreg trivial

theorem move_ret {call : Call} {result : Result}
    (h : move render t s pc choice = some (.ret call result, s', pc')) : pc = .ret call result ∧ s' = s := by
  cases pc <;> cases choice <;> simp only [move, reduceCtorEq] at h
  case ret.proceed =>
      cases h
      exact ⟨rfl, rfl⟩
  case checkName.proceed | find.proceed => split at h <;> cases h
  case idle.other | lock.proceed | unlock.proceed =>
      obtain ⟨_, _, heq⟩ := Option.map_eq_some_iff.mp h
      cases heq
  all_goals cases h

/-- What a call has returned stays right. -/
theorem Invariant.answered_cons {history : List (T × Op)} (hinv : Invariant history s t pc)
    (h : move render t s pc choice = some (op, s', pc')) (u : T) (call : Call) (result : Result)
    (hmem : (u, .ret call result) ∈ (t, op) :: history) : Answers s'.manager call result := by
  rcases List.mem_cons.mp hmem with heq | hmem
  · cases heq
    obtain ⟨rfl, rfl⟩ := move_ret h
    exact hinv.knows
  · exact (hinv.answered u call result hmem).mono (kept hinv.registered hinv.knows h).registry

/-- Who asks for the empty name changes nothing. -/
theorem move_empty (hname : pc.name = some []) (hknows : Knows s t pc)
    (h : move render t s pc choice = some (op, s', pc')) : s' = s := by
  cases pc with
  | checkName name =>
      cases hname
      cases choice <;> cases h
      rfl
  | ret call result =>
      cases choice <;> cases h
      rfl
  | lock =>
      cases hname
      exact absurd rfl hknows
  | find =>
      cases hname
      exact absurd rfl hknows.2
  | makeShared | unlock =>
      cases hname
      exact absurd rfl hknows.2.1
  | setRoot =>
      cases hname
      exact absurd rfl hknows.2.nonempty
  | emplace =>
      cases hname
      exact absurd rfl hknows.2.1.nonempty
  | _ => cases hname

theorem invariant_of_run {history : List (T × Op)} {s : Process T} (h : Run (Step render) (· = initial T) history s)
    (t : T) : Invariant history s.shared t (s.threads t) := by
  refine Interleaving.forall_threads ?_ ?_ ?_ h t
  · rintro _ rfl t
    exact ⟨registered_initial, nofun, trivial⟩
  · rintro history s t pc op s' pc' hinv ⟨choice, hmove⟩
    have hkept := kept hinv.registered hinv.knows hmove
    exact ⟨hkept.registered, hinv.answered_cons hmove, hkept.knows⟩
  · rintro history s t pc op s' pc' u pcu hne hu hinv ⟨choice, hmove⟩
    have hkept := kept hinv.registered hinv.knows hmove
    exact ⟨hkept.registered, hinv.answered_cons hmove, hu.knows.other hne hinv.knows hmove hkept.registry⟩

theorem registered_of_run {history : List (T × Op)} {s : Process T}
    (h : Run (Step render) (· = initial T) history s) : Registered s.shared.manager := by
  cases h with
  | start hinit =>
      rw [hinit]
      exact registered_initial
  | @extend _ _ label _ hrun hstep => exact (invariant_of_run (.extend hrun hstep) label.1).registered

theorem answers_of_run {history : List (T × Op)} {s : Process T} (h : Run (Step render) (· = initial T) history s)
    {t : T} {call : Call} {result : Result} (hmem : (t, .ret call result) ∈ history) :
    Answers s.shared.manager call result :=
  (invariant_of_run h t).answered t call result hmem

end

/-! ## Root links -/

section

variable {sys : LogSystem} {name : Bytes} {logger : LoggerId}

theorem Registered.root_null (h : Registered sys) : (sys.loggers LogSystem.root).root = none :=
  (h.root _ _ h.root_mem).trans (if_pos rfl)

/-- A registered logger is the root logger or one link away from it. -/
theorem Registered.rootChain (h : Registered sys) (hmem : (name, logger) ∈ sys.registry) :
    ∃ chain, sys.loggers.RootChain (some logger) chain ∧ chain.length ≤ 2 ∧ chain ⊆ [logger, LogSystem.root] := by
  have hnull := h.root_null
  have hend : sys.loggers.RootChain (some LogSystem.root) [LogSystem.root] := by
    refine .link ?_
    rw [hnull]
    exact .null
  have hlink := h.root name logger hmem
  by_cases hroot : logger = LogSystem.root
  · subst hroot
    exact ⟨_, hend, Nat.le_succ 1, by simp⟩
  · rw [if_neg hroot] at hlink
    refine ⟨logger :: [LogSystem.root], .link ?_, Nat.le_refl 2, List.Subset.refl _⟩
    rw [hlink]
    exact hend

theorem submit_isSome {loggers : Loggers} {chain : List LoggerId} {S : Type}
    (h : loggers.RootChain (some logger) chain) (hlength : chain.length ≤ 2)
    {format : LoggerId → Formatter → LogRecordView → S → Option (S × Bytes)}
    (hformat : ∀ logger F record st, (format logger F record st).isSome)
    (append : LoggerId → AppenderId → LogLevel → Bytes → S → S) (record : LogRecordView) (st : S) :
    (loggers.submit format append 2 logger record st).isSome := by
  rw [Loggers.submit_eq h hlength]
  cases loggers.target chain with
  | none => rfl
  | some target =>
      simp only
      split
      · rw [Option.isSome_map]
        exact hformat target _ record st
      · rfl

theorem flush_isSome {loggers : Loggers} {chain : List LoggerId} {S : Type}
    (h : loggers.RootChain (some logger) chain) (hlength : chain.length ≤ 2)
    (visit : LoggerId → AppenderId → S → S) (st : S) : (loggers.flush visit 2 logger st).isSome := by
  rw [Loggers.flush_eq h hlength]
  cases loggers.target chain <;> rfl

end

end Registry

end Pans
