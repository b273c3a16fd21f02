import Pans.Formatter.Theorems
import Pans.Threads.Lemmas.AtomicWaitLock
import Pans.Threads.Lemmas.Completion
import Pans.Threads.Lemmas.Durability
import Pans.Threads.Lemmas.Levels
import Pans.Threads.Lemmas.Lines
import Pans.Threads.Lemmas.Registry
import Pans.Threads.Lemmas.Removal
import Pans.Threads.Lemmas.SpinLock
import Pans.Threads.Lemmas.Streams
import Pans.Threads.Lemmas.Volume

/-!
# Results about threads that log
-/

namespace Pans

namespace Threads

section

variable {T τ : Type} [DecidableEq T] {render : Formatter → LogRecordView → τ → Bytes × τ}
  {history : List (T × Event)} {s : Process T τ}

/-- Between the call and the return there is a state in which the formatter and the appenders of the rendering
were those of its logger, whose lock the thread held. -/
def AtOneMoment (render : Formatter → LogRecordView → τ → Bytes × τ) (history : List (T × Event)) (s : Process T τ)
    (t : T) (n : Nat) (x : Rendering) : Prop :=
  ∃ later earlier s₁ s₂, history = later ++ (t, ⟨n, .format x⟩) :: earlier ∧
    Run (Step render) Init earlier s₁ ∧ Step render s₁ (t, ⟨n, .format x⟩) s₂ ∧
    Run (Step render) (· = s₂) later s ∧
    (s₁.shared.loggerMutex x.logger).HeldShared t ∧
    (s₁.shared.loggers x.logger).formatter = x.formatter ∧
    (s₁.shared.loggers x.logger).appenders = x.appenders ∧
    (∃ call, .call call ∈ trace t n earlier) ∧ .ret ∉ trace t n earlier

theorem atOneMoment (h : Run (Step render) Init history s) {t : T} {n : Nat} {x : Rendering}
    (hx : x ∈ renderings (trace t n history)) : AtOneMoment render history s t n x := by
  obtain ⟨op, hop, hrendering⟩ := List.mem_filterMap.mp hx
  obtain rfl := rendering_eq_some.mp hrendering
  obtain ⟨later, earlier, rfl⟩ := List.append_of_mem (mem_trace.mp hop)
  obtain ⟨s₁, s₂, hearlier, hstep, hlater⟩ := h.around
  have hvalid := valid_of_run hearlier t
  have hnext := hstep.own.format.1
  have hn : n = (s₁.threads t).calls := hstep.own.format.2
  subst hn
  have hfound := (next_spec hnext).format x rfl
  have hbusy : (s₁.threads t).pc ≠ .idle := by
    intro hidle
    rw [next_eq_none_iff.mpr hidle] at hnext
    cases hnext
  exact ⟨later, earlier, s₁, s₂, rfl, hearlier, hstep, hlater,
    hvalid.grants.shared _ (next_needs hnext), hfound.formatter, hfound.appenders, hvalid.called hbusy,
    hvalid.unreturned hbusy⟩

theorem call_delivers (h : Run (Step render) Init history s) (t : T) (n : Nat) :
    Started (trace t n history) ∧ (.ret ∈ trace t n history → Complete (trace t n history)) :=
  ⟨(valid_of_run h t).started n, fun hret => ((valid_of_run h t).returned n hret).1⟩

/-! ## Entire records -/

/-- However the threads interleave, a stream on which no record is being written consists of entire records; each
is the text that its call rendered; each call hands its record, once for every registration whose level lets it
pass, to the appenders of one list, and nothing else to any appender; and the records of a thread are on each
appender in the order of its calls. -/
theorem no_torn_record (render : Formatter → LogRecordView → τ → Bytes × τ) (history : List (T × Event))
    (s : Process T τ) (h : Run (Step render) Init history s) :
    (∀ appender, (∀ t, (s.threads t).pc.appendsTo ≠ some appender) →
      (s.shared.appenders appender).stream = recordsText (entries appender history)) ∧
    (∀ appender, ∀ entry ∈ entries appender history,
      ∃ x, renderings (trace entry.thread entry.call history) = [x] ∧ entry.copy.text = x.text ∧
        Genuine render (trace entry.thread entry.call history) x ∧
        AtOneMoment render history s entry.thread entry.call x) ∧
    (∀ t n, Started (trace t n history) ∧ (.ret ∈ trace t n history → Complete (trace t n history))) ∧
    (∀ appender t n, ((entries appender history).filter fun entry => entry.thread = t ∧ entry.call = n).map (·.copy) =
      (copies (trace t n history)).filter (·.appender = appender)) ∧
    ∀ appender t, ((entries appender history).filter (·.thread = t)).Pairwise (·.call ≤ ·.call) := by
  refine ⟨fun appender hidle => ?_, fun appender entry hentry => ?_, call_delivers h, fun appender t n => ?_,
    entries_ordered h⟩
  · rw [stream_of_run h, pending_eq_nil hidle, List.append_nil]
  · have hvalid := valid_of_run h entry.thread
    have hcopy := mem_trace.mpr (mem_entries hentry)
    obtain ⟨x, hrendering, htext⟩ := (hvalid.started entry.call).text_of_copy hcopy
    have hx : x ∈ renderings (trace entry.thread entry.call history) := hrendering ▸ List.mem_singleton_self x
    exact ⟨x, hrendering, htext, hvalid.genuine _ x hx, atOneMoment h hx⟩
  · exact entries_of_call appender

end

def messages (_ : Formatter) (record : LogRecordView) (cache : Unit) : Bytes × Unit := (record.message, cache)

def rootAlone : Process Bool Unit where
  shared := {
    loggers := fun _ => ⟨ascii "root", .debug, ⟨ascii "%m", [.message], by decide +kernel⟩, [7], none⟩
    appenders := fun _ => Appender.Impl.new
    loggerMutex := fun _ => .free
    appenderMutex := fun _ => .free }
  threads := fun _ => ⟨.idle, (), 0⟩

theorem init_rootAlone : Init rootAlone := ⟨fun _ => rfl, fun _ => rfl, fun _ => rfl, fun _ => rfl, fun _ => rfl⟩

theorem run_of_turns {turns : List (Bool × Call)} {history : List (Bool × Event)} {s : Process Bool Unit}
    (h : Interleaving.schedule (move messages) rootAlone turns = some (history, s)) :
    Run (Step messages) Init history s := by
  refine Interleaving.run_of_schedule ?_ init_rootAlone h
  intro t s l call e s' l' hmove
  exact move_iff.mpr ⟨call, hmove⟩

def submitText (text : Bytes) : Call := .route (.submit { LogRecordView.atFirstSecond with message := text }) 0

/-- The second thread logs while the first is about to lock the appender. -/
theorem no_torn_record_two_threads :
    ∃ history s, Run (Step messages) Init history s ∧ recordsText (entries 7 history) = ascii "yohi" ∧
      Complete (trace false 1 history) := by
  obtain ⟨⟨history, s⟩, hturns, hidle, hstream, hret⟩ :
      ∃ run ∈ Interleaving.schedule (move messages) rootAlone (List.replicate 8 (true, submitText (ascii "hi")) ++
          List.replicate 15 (false, submitText (ascii "yo")) ++ List.replicate 7 (true, submitText (ascii "hi"))),
        (∀ t, (run.2.threads t).pc.appendsTo ≠ some 7) ∧ (run.2.shared.appenders 7).stream = ascii "yohi" ∧
          .ret ∈ trace false 1 run.1 := by
    decide +kernel
  have hrun := run_of_turns hturns
  obtain ⟨hstreams, _, hcalls, _⟩ := no_torn_record messages history s hrun
  exact ⟨history, s, hrun, (hstreams 7 hidle).symm.trans hstream, (hcalls false 1).2 hret⟩

section

variable {T τ : Type} [DecidableEq T]

/-! ## Reconfiguration -/

/-- However records and updates interleave, a record is rendered with a formatter, and handed to every appender of a
list, that were its logger's together at one moment of the call; and once an appender has been removed from a
logger, a byte goes to it through that logger only after it was added again. -/
theorem reconfiguration_atomic (render : Formatter → LogRecordView → τ → Bytes × τ) (history : List (T × Event))
    (s : Process T τ) (h : Run (Step render) Init history s) :
    (∀ t n, ∀ x ∈ renderings (trace t n history),
      Genuine render (trace t n history) x ∧ AtOneMoment render history s t n x) ∧
    (∀ t n, Started (trace t n history) ∧ (.ret ∈ trace t n history → Complete (trace t n history))) ∧
    ∀ since before u n c logger appender, history = since ++ (u, ⟨n, .ret⟩) :: before →
      .call (.configure c) ∈ trace u n before → c.Removes logger appender →
      ∃ later earlier, before = later ++ (u, ⟨n, .apply c⟩) :: earlier ∧
        ∀ after v m byte between, since = after ++ (v, ⟨m, .write logger appender byte⟩) :: between →
          ∃ e ∈ between ++ (u, ⟨n, .ret⟩) :: later, e.2.op = .apply (.addAppender logger appender) := by
  refine ⟨fun t n x hx => ⟨(valid_of_run h t).genuine n x hx, atOneMoment h hx⟩, call_delivers h, ?_⟩
  · rintro since before u n c logger appender rfl hcall hc
    obtain ⟨later, earlier, rfl⟩ := List.append_of_mem (applied_before_return h hcall)
    refine ⟨later, earlier, rfl, ?_⟩
    rintro after v m byte between rfl
    have hrun : Run (Step render) Init (after ++ (v, ⟨m, .write logger appender byte⟩) ::
        ((between ++ (u, ⟨n, .ret⟩) :: later) ++ (u, ⟨n, .apply c⟩) :: earlier)) s := by
      simpa using h
    exact added_before_write hrun hc

end

/-- The second thread removes the appender while the first logs; the first then logs again. -/
theorem reconfiguration_atomic_removal :
    ∃ history s, Run (Step messages) Init history s ∧ (s.shared.appenders 7).stream = ascii "hi" ∧
      ∃ later earlier, history.drop 8 = later ++ (false, ⟨1, .apply (.removeAppender 0 7)⟩) :: earlier ∧
        ∀ after v m byte between, history.take 7 = after ++ (v, ⟨m, .write 0 7 byte⟩) :: between →
          ∃ e ∈ between ++ (false, ⟨1, .ret⟩) :: later, e.2.op = .apply (.addAppender 0 7) := by
  let remove : Call := .configure (.removeAppender 0 7)
  obtain ⟨⟨history, s⟩, hturns, hstream, hsplit, hcall⟩ :
      ∃ run ∈ Interleaving.schedule (move messages) rootAlone (List.replicate 7 (true, submitText (ascii "yo")) ++
          List.replicate 4 (false, remove) ++ List.replicate 10 (true, submitText (ascii "hi")) ++
          [(false, remove)] ++ List.replicate 5 (true, submitText (ascii "hi"))),
        (run.2.shared.appenders 7).stream = ascii "hi" ∧
          run.1 = run.1.take 7 ++ (false, ⟨1, .ret⟩) :: run.1.drop 8 ∧
          .call remove ∈ trace false 1 (run.1.drop 8) := by
    decide +kernel
  have hrun := run_of_turns hturns
  exact ⟨history, s, hrun, hstream,
    (reconfiguration_atomic messages history s hrun).2.2 _ _ false 1 _ 0 7 hsplit hcall (.inl rfl)⟩

/-! ## Levels -/

section

variable {T τ : Type} [DecidableEq T]

/-- Whatever the other threads do while a record is submitted, with formatting, storage, locks and files that do not
fail: as long as the level of its logger is above that of the record, the call takes no lock and hands nothing over; as
long as the level of an appender is, the appender does not get the record; and as long as neither is and the appender
is registered, it gets the record before the call returns. -/
theorem levels_obeyed (render : Formatter → LogRecordView → τ → Bytes × τ) (later earlier : List (T × Event))
    (s₀ s : Process T τ) (t : T) (n : Nat) (record : LogRecordView) (logger : LoggerId)
    (h₀ : Run (Step render) Init ((t, ⟨n, .call (.route (.submit record) logger)⟩) :: earlier) s₀)
    (h : Run (Step render) (· = s₀) later s) :
    (LevelSince (Below record) logger s₀.shared later → ∀ op ∈ trace t n later, op = .silent ∨ op = .ret) ∧
    ∀ appender, (AppenderLevelSince (Below record) appender s₀.shared later →
        ∀ c ∈ copies (trace t n later), c.appender ≠ appender) ∧
      (LevelSince (¬Below record ·) logger s₀.shared later → RegisteredSince logger appender s₀.shared later →
        AppenderLevelSince (¬Below record ·) appender s₀.shared later → .ret ∈ trace t n later →
        ∃ x, renderings (trace t n later) = [x] ∧ x.record = record ∧ x.logger = logger ∧
          .appended ⟨logger, appender, x.text⟩ ∈ trace t n later) := by
  have hentered := entered h₀
  exact ⟨silent_of_below hentered h, fun appender => ⟨copies_of_below hentered h,
    delivered_of_returned hentered h⟩⟩

end

/-- While one thread logs, the other sets the level of the appender, to one that lets the record pass as well. -/
theorem levels_obeyed_two_threads :
    ∃ history s, Run (Step messages) Init history s ∧ (false, ⟨1, .setAppenderLevel 7 .info⟩) ∈ history ∧
      .appended ⟨0, 7, ascii "hi"⟩ ∈ trace true 1 history := by
  let record := { LogRecordView.atFirstSecond with message := ascii "hi" }
  let ops : List Op := [.call (.setAppenderLevel 7 .info), .setAppenderLevel 7 .info, .silent, .lockShared 0,
    .test (.submit record) 0 [7], .check ⟨0, 7, true⟩, .lock 7, .write 0 7 104, .write 0 7 105,
    .appended ⟨0, 7, ascii "hi"⟩, .unlockShared 0, .ret]
  let turns := List.replicate 12 (true, submitText (ascii "hi")) ++ List.replicate 3 (false, .setAppenderLevel 7 .info) ++
    List.replicate 2 (true, submitText (ascii "hi"))
  let s₀ : Process Bool Unit :=
    ⟨rootAlone.shared, Function.update rootAlone.threads true ⟨.readLevel record 0, (), 1⟩⟩
  have hbegun : Run (Step messages) Init [(true, ⟨1, .call (.route (.submit record) 0)⟩)] s₀ := by
    refine .extend (.start init_rootAlone) ⟨?_, fun u hu => Function.update_of_ne hu _ _⟩
    exact .call (.route (.submit record) 0) rfl
  obtain ⟨⟨later, s⟩, hturns, hops, hset, hret, htext⟩ :
      ∃ run ∈ Interleaving.schedule (move messages) s₀ turns, (∀ e ∈ run.1, e.2.op ∈ ops ∨ e.2.op.rendering?.isSome) ∧
        (false, ⟨1, .setAppenderLevel 7 .info⟩) ∈ run.1 ∧ .ret ∈ trace true 1 run.1 ∧
          ∀ x ∈ renderings (trace true 1 run.1), x.text = ascii "hi" := by
    decide +kernel
  have hlater : Run (Step messages) (· = s₀) later s := by
    refine Interleaving.run_of_schedule ?_ rfl hturns
    exact fun _ _ _ call _ _ _ hmove => move_iff.mpr ⟨call, hmove⟩
  have hlevel (e) (he : e ∈ later) (level : LogLevel) : e.2.op ≠ .setLevel 0 level := by
    intro heq
    simpa [heq, ops, Op.rendering?] using hops e he
  have happender (e) (he : e ∈ later) (level : LogLevel) (heq : e.2.op = .setAppenderLevel 7 level) :
      ¬Below record level := by
    have hinfo : level = .info := by simpa [heq, ops, Op.rendering?] using hops e he
    rw [hinfo]
    decide
  have hconfig (e) (he : e ∈ later) (c : Config) : e.2.op ≠ .apply c := by
    intro heq
    simpa [heq, ops, Op.rendering?] using hops e he
  obtain ⟨x, hx, _, _, happended⟩ := ((levels_obeyed messages later [] s₀ s true 1 record 0 hbegun hlater).2 7).2
    ⟨by decide, fun e he level heq => absurd heq (hlevel e he level)⟩
    ⟨by decide, fun e he c heq => absurd heq (hconfig e he c)⟩ ⟨by decide, happender⟩ hret
  have hx : x.text = ascii "hi" := htext x (hx ▸ List.mem_singleton_self x)
  refine ⟨_, s, hbegun.append hlater, List.mem_append_left _ hset, ?_⟩
  rw [trace_append]
  exact List.mem_append_right _ (hx ▸ happended)

/-! ## Lines -/

section

variable {T Tm : Type} [DecidableEq T]

/-- The threads keep the formatter that the loggers were created with, and the parts of their records can be told
apart: their dates are converted, none of them is of second 0, and no part contains what ends it. However the threads
interleave, a stream to which nobody is appending reads back, and its lines are those of the records whose calls have
handed them over. -/
theorem streams_read_back (libc : Libc Tm) (history : List (T × Event)) (s : Process T DateCache)
    (h : Run (Step (renderCached libc)) InitDefault history s) (hops : ∀ e ∈ history, e.2.op.Ordinary libc)
    (appender : AppenderId) (hidle : ∀ t, (s.threads t).pc.appendsTo ≠ some appender) :
    ∃ record : Entry T → LogRecordView,
      (∀ entry ∈ entries appender history,
        ∃ logger, .call (.route (.submit (record entry)) logger) ∈ trace entry.thread entry.call history) ∧
      DefaultLine.lineCode.decodeAll (s.shared.appenders appender).stream =
        some ((entries appender history).map fun entry => (record entry).shown libc) := by
  have hexists : ∀ entry : Entry T, ∃ record, entry ∈ entries appender history →
      (∃ logger, .call (.route (.submit record) logger) ∈ trace entry.thread entry.call history) ∧
        Readable libc record ∧ entry.copy.text = (record.shown libc).text ++ [byte '\n'] := by
    intro entry
    by_cases hentry : entry ∈ entries appender history
    · obtain ⟨record, logger, hsubmitted, hreadable, htext⟩ := entry_shown h hops hentry
      exact ⟨record, fun _ => ⟨⟨logger, hsubmitted⟩, hreadable, htext⟩⟩
    · exact ⟨.atFirstSecond, fun hmem => absurd hmem hentry⟩
  choose record hrecord using hexists
  refine ⟨record, fun entry hentry => (hrecord entry hentry).1, ?_⟩
  rw [stream_of_run (h.mono_init fun _ => InitDefault.toInit), pending_eq_nil hidle, List.append_nil,
    DefaultLine.decodeAll_eq_some_iff]
  constructor
  · intro line hline
    obtain ⟨entry, hentry, rfl⟩ := List.mem_map.mp hline
    exact (hrecord entry hentry).2.1.plain
  · rw [recordsText, List.flatMap_map, List.flatMap_def]
    exact congrArg List.flatten (List.map_congr_left fun entry hentry => (hrecord entry hentry).2.2)

end

/-- The second thread logs while the first is about to lock the appender. -/
theorem streams_read_back_two_threads :
    ∃ (history : List (Bool × Event)) (s : Process Bool DateCache),
      Run (Step (renderCached Libc.atFirstSecond)) InitDefault history s ∧ (entries 7 history).length = 2 ∧
      (DefaultLine.lineCode.decodeAll (s.shared.appenders 7).stream).map List.length = some 2 := by
  let initial : Process Bool DateCache := {
    shared := { rootAlone.shared with
      loggers := fun _ => { Logger.Impl.new (ascii "root") with appenders := [7] } }
    threads := fun _ => ⟨.idle, .initial, 0⟩ }
  have hinit : InitDefault initial :=
    ⟨⟨fun _ => rfl, fun _ => rfl, fun _ => rfl, fun _ => rfl, fun _ => rfl⟩, fun _ => rfl, fun _ => rfl⟩
  obtain ⟨⟨history, s⟩, hturns, hops, hidle, hlength⟩ :
      ∃ run ∈ Interleaving.schedule (move (renderCached Libc.atFirstSecond)) initial
          (List.replicate 70 (true, submitText (ascii "hi")) ++ List.replicate 77 (false, submitText (ascii "yo")) ++
            List.replicate 7 (true, submitText (ascii "hi"))),
        (∀ e ∈ run.1, e.2.op.Ordinary Libc.atFirstSecond) ∧ (∀ t, (run.2.threads t).pc.appendsTo ≠ some 7) ∧
          (entries 7 run.1).length = 2 := by
    decide +kernel
  have hrun : Run (Step (renderCached Libc.atFirstSecond)) InitDefault history s := by
    refine Interleaving.run_of_schedule ?_ hinit hturns
    exact fun _ _ _ call _ _ _ hmove => move_iff.mpr ⟨call, hmove⟩
  obtain ⟨record, _, hread⟩ := streams_read_back Libc.atFirstSecond history s hrun hops 7 hidle
  exact ⟨history, s, hrun, hlength, by rw [hread, Option.map_some, List.length_map, hlength]⟩

/-! ## Completion -/

section

variable {T τ : Type} [DecidableEq T] [Fintype T]

end

section

variable {T τ : Type} [DecidableEq T]

/-- However threads and spills interleave, the disk is behind the system and the system behind what the file has
accepted. What a file has accepted by the end of a critical section of an append of a FATAL record, of `flush` or
of `sync` is with the system from then on, and for `sync` on the disk. A file that is closed has handed over
everything. When `submit` of a FATAL record that was rendered returns, each appender of the list has been given the
text under such a critical section, unless its level was above FATAL when it was asked. -/
theorem durability (kind : AppenderId → Appender.Kind) (render : Formatter → LogRecordView → τ → Bytes × τ)
    (history : List (Label T)) (s : System T τ) (h : Run (System.Step kind render) System.Init history s) :
    (∀ appender, (s.files appender).synced <+: (s.files appender).handed ∧
      (s.files appender).handed <+: (s.files appender).accepted ∧
      (s.files appender).accepted = (s.process.shared.appenders appender).stream) ∧
    (∀ t n record logger c s₁, .call (.route (.submit record) logger) ∈ trace t n (events history) →
      record.level = .fatal → System.Through kind render history s (.thread t ⟨n, .appended c⟩) s₁ →
      (s₁.files c.appender).accepted <+: (s.files c.appender).handed) ∧
    (∀ t n how appender, .call (.visitAppender how appender) ∈ trace t n (events history) →
      .ret ∈ trace t n (events history) →
      ∃ s₁, System.Through kind render history s (.thread t ⟨n, .unlock appender⟩) s₁ ∧
        (s₁.files appender).accepted <+: (s.files appender).handed ∧
        (how = .sync → kind appender = .file → (s₁.files appender).accepted <+: (s.files appender).synced)) ∧
    (∀ appender ∈ s.destroyed, kind appender = .file → (s.files appender).handed = (s.files appender).accepted) ∧
    ∀ t n record logger x, .call (.route (.submit record) logger) ∈ trace t n (events history) →
      record.level = .fatal → .ret ∈ trace t n (events history) → x ∈ renderings (trace t n (events history)) →
      ∀ appender ∈ x.appenders,
        (∃ s₁, System.Through kind render history s (.thread t ⟨n, .check ⟨x.logger, appender, false⟩⟩) s₁ ∧
          LogLevel.fatal.toU8 < (s₁.process.shared.appenders appender).level.toU8) ∨
        ∃ s₁, System.Through kind render history s (.thread t ⟨n, .appended ⟨x.logger, appender, x.text⟩⟩) s₁ ∧
          (s₁.files appender).accepted <+: (s.files appender).handed ∧
          ((s.files appender).accepted = (s₁.files appender).accepted →
            (s.files appender).handed = (s.files appender).accepted) := by
  have hvalid := System.files_of_run h
  have happend {t n record logger c s₁} (hcall : .call (.route (.submit record) logger) ∈ trace t n (events history))
      (hfatal : record.level = .fatal)
      (hthrough : System.Through kind render history s (.thread t ⟨n, .appended c⟩) s₁) :
      (s₁.files c.appender).accepted <+: (s.files c.appender).handed :=
    (hthrough.handed h rfl hcall).1 ⟨record, rfl, hfatal⟩
  have hthrough {t n op} (hop : op ∈ trace t n (events history)) :=
    System.through_of_mem h (mem_events.mp (mem_trace.mp hop))
  refine ⟨fun appender => ⟨(hvalid appender).synced, (hvalid appender).handed, System.accepted_of_run h appender⟩,
    fun t n record logger c s₁ => happend, ?_, fun appender hmem => (System.gone_of_run h appender hmem).handed, ?_⟩
  · intro t n how appender hcall hret
    have hunlock := (engaged_of_run (System.threads_of_run h) t).visited n how appender hret hcall
    obtain ⟨s₁, hs₁⟩ := hthrough hunlock
    exact ⟨s₁, hs₁, (hs₁.handed h rfl hcall).2 how rfl⟩
  · intro t n record logger x hcall hfatal hret hx appender hmem
    have hcomplete := ((valid_of_run (System.threads_of_run h) t).returned n hret).1
    rcases hcomplete with huntouched | ⟨y, hhanded⟩
    · rw [huntouched.renderings] at hx
      cases hx
    · rw [hhanded.renderings] at hx
      obtain rfl := List.mem_singleton.mp hx
      rcases hhanded.refused_or_appended hmem with hcheck | happended
      · obtain ⟨s₁, hs₁⟩ := hthrough hcheck
        exact .inl ⟨s₁, hs₁, hfatal ▸ hs₁.refused h rfl hcall⟩
      · obtain ⟨s₁, hs₁⟩ := hthrough happended
        have hprefix := happend hcall hfatal hs₁
        refine .inr ⟨s₁, hs₁, hprefix, fun hsame => ?_⟩
        exact (hvalid appender).handed.eq_of_length_le (hsame ▸ hprefix).length_le

end

def toFiles : AppenderId → Appender.Kind := fun _ => .file

def rootToFile : System Bool Unit := ⟨rootAlone, fun _ => .empty, []⟩

theorem run_of_file_turns {turns : List (System.Turn Bool)} {history : List (Label Bool)} {s : System Bool Unit}
    (h : Run.follow (System.move toFiles messages) rootToFile turns = some (history, s)) :
    Run (System.Step toFiles messages) System.Init history s :=
  Run.of_follow (fun _ _ _ _ hmove => System.step_of_move hmove) ⟨init_rootAlone, fun _ => rfl, rfl⟩ h

def fatalText (text : Bytes) : Call :=
  .route (.submit { LogRecordView.atFirstSecond with message := text, level := .fatal }) 0

/-- A byte of the first record is spilled; the second thread logs a FATAL record, and the first then syncs. -/
theorem durability_two_threads :
    ∃ history s, Run (System.Step toFiles messages) System.Init history s ∧ (s.files 7).synced = ascii "yohi" ∧
      (∃ s₁, System.Through toFiles messages history s (.thread true ⟨1, .appended ⟨0, 7, ascii "hi"⟩⟩) s₁ ∧
        (s₁.files 7).accepted <+: (s.files 7).handed) ∧
      ∃ s₁, System.Through toFiles messages history s (.thread false ⟨2, .unlock 7⟩) s₁ ∧
        (s₁.files 7).accepted <+: (s.files 7).synced := by
  obtain ⟨⟨history, s⟩, hturns, hsynced, happended, hcall, hvisit, hret⟩ :
      ∃ run ∈ Run.follow (System.move toFiles messages) rootToFile
          (List.replicate 5 (System.Turn.thread false (.visitAppender .sync 7)) ++
            List.replicate 16 (.thread true (fatalText (ascii "hi"))) ++
            .spill 7 1 :: List.replicate 15 (.thread false (submitText (ascii "yo")))),
        (run.2.files 7).synced = ascii "yohi" ∧
          .appended ⟨0, 7, ascii "hi"⟩ ∈ trace true 1 (events run.1) ∧
          .call (fatalText (ascii "hi")) ∈ trace true 1 (events run.1) ∧
          .call (.visitAppender .sync 7) ∈ trace false 2 (events run.1) ∧ .ret ∈ trace false 2 (events run.1) := by
    decide +kernel
  have hrun := run_of_file_turns hturns
  obtain ⟨_, happends, hvisits, _⟩ := durability toFiles messages history s hrun
  obtain ⟨s₁, hs₁⟩ := System.through_of_mem hrun (mem_events.mp (mem_trace.mp happended))
  obtain ⟨s₂, hs₂, _, hsync⟩ := hvisits false 2 .sync 7 hvisit hret
  exact ⟨history, s, hrun, hsynced, ⟨s₁, hs₁, happends true 1 _ 0 _ s₁ hcall rfl hs₁⟩, s₂, hs₂, hsync rfl rfl⟩

/-- Whoever has just returned from `submit` of a FATAL record finds that each appender of the logger whose level
admits it has handed over all that it ever accepted. -/
def HandedOverAll {T τ : Type} [DecidableEq T] (history : List (Label T)) (s : System T τ) : Prop :=
  ∀ t n record logger, history.head? = some (.thread t ⟨n, .ret⟩) →
    .call (.route (.submit record) logger) ∈ trace t n (events history) → record.level = .fatal →
    ∀ appender ∈ (s.process.shared.loggers logger).appenders,
      ¬LogLevel.fatal.toU8 < (s.process.shared.appenders appender).level.toU8 →
      (s.files appender).handed = (s.files appender).accepted

/-- A logger whose level is OFF drops the record; and where the logger lets it pass, another thread appends between
the flush and the return. -/
theorem submit_fatal_leaves_bytes :
    (∃ history, ∃ s : System Bool Unit, Run (System.Step toFiles messages) System.Init history s ∧
      (s.process.shared.loggers 0).level = .off ∧ ¬HandedOverAll history s) ∧
    ∃ history, ∃ s : System Bool Unit, Run (System.Step toFiles messages) System.Init history s ∧
      (s.process.shared.loggers 0).level = .debug ∧ ¬HandedOverAll history s := by
  constructor
  · obtain ⟨⟨history, s⟩, hturns, hlevel, hret, hcall, hmem, hadmits, hleft⟩ :
        ∃ run ∈ Run.follow (System.move toFiles messages) rootToFile
            (List.replicate 3 (System.Turn.thread true (fatalText [])) ++
              List.replicate 3 (.thread true (.setLevel 0 .off)) ++
              List.replicate 15 (.thread true (submitText (ascii "hi")))),
          (run.2.process.shared.loggers 0).level = .off ∧ run.1.head? = some (.thread true ⟨3, .ret⟩) ∧
            .call (fatalText []) ∈ trace true 3 (events run.1) ∧
            7 ∈ (run.2.process.shared.loggers 0).appenders ∧
            ¬LogLevel.fatal.toU8 < (run.2.process.shared.appenders 7).level.toU8 ∧
            (run.2.files 7).handed ≠ (run.2.files 7).accepted := by
      decide +kernel
    exact ⟨history, s, run_of_file_turns hturns, hlevel,
      fun hall => hleft (hall true 3 _ 0 hret hcall rfl 7 hmem hadmits)⟩
  · obtain ⟨⟨history, s⟩, hturns, hlevel, hret, hcall, hmem, hadmits, hleft⟩ :
        ∃ run ∈ Run.follow (System.move toFiles messages) rootToFile
            (List.replicate 3 (System.Turn.thread true (fatalText (ascii "hi"))) ++
              List.replicate 15 (.thread false (submitText (ascii "yo"))) ++
              List.replicate 13 (.thread true (fatalText (ascii "hi")))),
          (run.2.process.shared.loggers 0).level = .debug ∧ run.1.head? = some (.thread true ⟨1, .ret⟩) ∧
            .call (fatalText (ascii "hi")) ∈ trace true 1 (events run.1) ∧
            7 ∈ (run.2.process.shared.loggers 0).appenders ∧
            ¬LogLevel.fatal.toU8 < (run.2.process.shared.appenders 7).level.toU8 ∧
            (run.2.files 7).handed ≠ (run.2.files 7).accepted := by
      decide +kernel
    exact ⟨history, s, run_of_file_turns hturns, hlevel,
      fun hall => hleft (hall true 1 _ 0 hret hcall rfl 7 hmem hadmits)⟩

/-! ## Files with several appenders -/

section

variable {T τ : Type} [DecidableEq T]

/-- However the threads and the spills interleave, with formatting, storage, locks and file operations that do not fail,
a file holds what it held before and then what its appenders have handed over, nothing lost and nothing twice, and that
of each appender in its order; once its appenders have handed over everything, these are their records, and with one
appender they follow one another. What the file contains when any appender syncs it is on the disk from then on,
whoever wrote it. -/
theorem shared_files_merge (names : FileNames) (render : Formatter → LogRecordView → τ → Bytes × τ)
    (old : Bytes → Bytes) (history : List (Label T)) (v : Volume T τ)
    (h : Run (Volume.Step names render) (Volume.Init old) history v) (file : Bytes) :
    let records (appender : AppenderId) : Bytes :=
      if names appender = some file then recordsText (entries appender (events history)) else []
    (∃ added, v.content file = old file ++ added ∧ Merges (v.handedTo names file) added ∧
      (v.Settled names file → Merges records added ∧
        ∀ appender, (∀ other, names other = some file → other = appender) → added = records appender)) ∧
    v.durable file <+: v.content file ∧
    ∀ later earlier label v₁ v₂, Run (Volume.Step names render) (Volume.Init old) earlier v₁ →
      Volume.Step names render v₁ label v₂ → Run (Volume.Step names render) (· = v₂) later v →
      v₁.system.syncs? names label = some file → v₂.content file <+: v.durable file := by
  intro records
  obtain ⟨added, hcontent, hmerges⟩ := Volume.merges_of_run h file
  have hsystem := Volume.system_of_run h
  refine ⟨⟨added, hcontent, hmerges, fun hsettled => ?_⟩, ?_, ?_⟩
  · have hrecords (appender : AppenderId) : records appender = v.handedTo names file appender := by
      unfold records Volume.handedTo
      split
      · rename_i hname
        rw [hsettled.handed appender hname, System.accepted_of_run hsystem,
          stream_of_run (System.threads_of_run hsystem), pending_eq_nil (hsettled.idle appender hname), List.append_nil]
      · rfl
    have hmerges := hmerges.congr hrecords
    refine ⟨hmerges, fun appender honly => hmerges.eq_of_single fun other hne => ?_⟩
    exact if_neg fun hname => hne (honly other hname)
  · exact (Volume.durable_of_run h file fun v hinit => ⟨List.nil_prefix, hinit.durable file⟩).2
  · intro later earlier label v₁ v₂ _ hstep hlater hsyncs
    have hsynced := hstep.syncs hsyncs
    refine (Volume.durable_of_run hlater file fun v heq => ?_).1
    subst heq
    rw [hsynced]
    exact ⟨List.prefix_refl _, List.prefix_refl _⟩

end

def twoToOneFile : Volume Bool Unit where
  system := {
    process := { rootAlone with
      shared := { rootAlone.shared with
        loggers := fun logger => { rootAlone.shared.loggers 0 with appenders := if logger = 0 then [7] else [8] } } }
    files := fun _ => .empty
    destroyed := [] }
  content := fun _ => ascii "old"
  durable := fun _ => []

def toOneFile : FileNames := fun appender => if appender ∈ [7, 8] then some (ascii "log") else none

/-- One logger for each appender. The record of the first is torn: it is spilled in two parts, and the record of the
second in between. -/
theorem shared_files_merge_torn :
    ∃ (history : List (Label Bool)) (v : Volume Bool Unit),
      Run (Volume.Step toOneFile messages) (Volume.Init fun _ => ascii "old") history v ∧
      v.content (ascii "log") = ascii "oldhyoi" ∧ Merges (fun appender =>
        if toOneFile appender = some (ascii "log") then recordsText (entries appender (events history)) else [])
        (ascii "hyoi") := by
  let submitTo (logger : LoggerId) (text : Bytes) : Call :=
    .route (.submit { LogRecordView.atFirstSecond with message := text }) logger
  let turns : List (System.Turn Bool) := .spill 7 1 :: .spill 8 2 :: .spill 7 1 ::
    List.replicate 15 (.thread false (submitTo 1 (ascii "yo"))) ++
    List.replicate 15 (.thread true (submitTo 0 (ascii "hi")))
  obtain ⟨⟨history, v⟩, hturns, hcontent, hsettled⟩ :
      ∃ run ∈ Run.follow (Volume.move toOneFile messages) twoToOneFile turns,
        run.2.content (ascii "log") = ascii "oldhyoi" ∧
          ∀ appender ∈ [7, 8], (run.2.system.files appender).handed = (run.2.system.files appender).accepted ∧
            ∀ t, (run.2.system.process.threads t).pc.appendsTo ≠ some appender := by
    decide +kernel
  have hinit : Volume.Init (fun _ => ascii "old") twoToOneFile :=
    ⟨⟨⟨fun _ => rfl, fun _ => rfl, fun _ => rfl, fun _ => rfl, fun _ => rfl⟩, fun _ => rfl, rfl⟩, rfl,
      fun _ => List.nil_prefix⟩
  have hrun : Run (Volume.Step toOneFile messages) (Volume.Init fun _ => ascii "old") history v :=
    Run.of_follow (fun _ _ _ _ hmove => Volume.step_of_move hmove) hinit hturns
  have hnamed {appender : AppenderId} (h : toOneFile appender = some (ascii "log")) : appender ∈ [7, 8] := by
    by_contra hnot
    rw [toOneFile, if_neg hnot] at h
    cases h
  obtain ⟨added, hadded, _, hmerges⟩ :=
    (shared_files_merge toOneFile messages (fun _ => ascii "old") history v hrun (ascii "log")).1
  have hadded : ascii "old" ++ ascii "hyoi" = ascii "old" ++ added := hcontent.symm.trans hadded
  rw [List.append_cancel_left hadded]
  exact ⟨history, v, hrun, hcontent, (hmerges ⟨fun appender h => (hsettled appender (hnamed h)).1,
    fun appender h => (hsettled appender (hnamed h)).2⟩).1⟩

end Threads

/-! ## The registry -/

namespace Registry

section

variable {T : Type} [DecidableEq T]

/-- Whichever threads ask for which loggers in whatever order, each name has its own logger for ever, which carries
the name; the empty name gives null and changes nothing. All loggers but the root logger are one link away from it,
which is itself linked to none, so whatever follows the links comes back after one of them. -/
theorem names_have_loggers (render : Formatter → LogRecordView → Bytes) (history : List (T × Op)) (s : Process T)
    (h : Run (Step render) (· = initial T) history s) :
    let sys := s.shared.manager
    (∀ t t' name name' logger logger', (t, .ret (.getLogger name) (.returned (some logger))) ∈ history →
      (t', .ret (.getLogger name') (.returned (some logger'))) ∈ history → (name = name' ↔ logger = logger')) ∧
    (∀ t name logger, (t, .ret (.getLogger name) (.returned (some logger))) ∈ history →
      (name, logger) ∈ sys.registry ∧ (sys.loggers logger).name = name ∧
      (name = ascii "root" → logger = LogSystem.root)) ∧
    (∀ t result, (t, .ret .getRootLogger result) ∈ history → result = .returned (some LogSystem.root)) ∧
    (∀ t result, (t, .ret (.getLogger []) result) ∈ history → result = .returned none) ∧
    (∀ t op s', (s.threads t).name = some [] → Step render s (t, op) s' → s'.shared = s.shared) ∧
    (sys.loggers LogSystem.root).root = none ∧
    ∀ name logger, (name, logger) ∈ sys.registry →
      (logger ≠ LogSystem.root → (sys.loggers logger).root = some LogSystem.root) ∧
      (∃ chain, sys.loggers.RootChain (some logger) chain ∧ chain.length ≤ 2 ∧ chain ⊆ [logger, LogSystem.root]) ∧
      ∀ level, (sys.loggers.shouldLog 2 logger level).isSome ∧
        ∀ (S : Type) format append visit record (st : S),
          (∀ logger F record (st : S), (format logger F record st : Option (S × Bytes)).isSome) →
          (sys.loggers.submit format append 2 logger record st).isSome ∧
          (sys.loggers.flush visit 2 logger st).isSome ∧ (sys.loggers.sync visit 2 logger st).isSome := by
  have hreg := registered_of_run h
  refine ⟨?_, ?_, ?_, ?_, ?_, hreg.root_null, ?_⟩
  · intro t t' name name' logger logger' hmem hmem'
    exact hreg.entry_iff (answers_of_run h hmem) (answers_of_run h hmem')
  · intro t name logger hmem
    have hentry : (name, logger) ∈ s.shared.manager.registry := answers_of_run h hmem
    refine ⟨hentry, (hreg.name name logger hentry).1, ?_⟩
    rintro rfl
    exact (hreg.entry_iff hentry hreg.root_mem).mp rfl
  · intro t result hmem
    exact answers_of_run h hmem
  · intro t result hmem
    have hanswer := answers_of_run h hmem
    rcases result with (_ | logger) | _
    · rfl
    · exact absurd rfl (hreg.name [] logger hanswer).2
    · exact absurd rfl hanswer
  · rintro t op s' hname ⟨⟨choice, hmove⟩, _⟩
    exact move_empty hname (invariant_of_run h t).knows hmove
  · intro name logger hmem
    obtain ⟨chain, hchain, hlength, hsub⟩ := hreg.rootChain hmem
    refine ⟨fun hne => (hreg.root name logger hmem).trans (if_neg hne), ⟨chain, hchain, hlength, hsub⟩, ?_⟩
    intro level
    refine ⟨by rw [Loggers.shouldLog_eq hchain hlength]; rfl, ?_⟩
    intro S format append visit record st hformat
    refine ⟨submit_isSome hchain hlength hformat append record st, flush_isSome hchain hlength visit st, ?_⟩
    rw [Loggers.sync_eq_flush]
    exact flush_isSome hchain hlength visit st

end

/-- Both threads have asked for the name before one of them registers it; the other gets the same logger. -/
theorem names_have_loggers_two_threads :
    ∃ history s, Run (Step fun _ record => record.message) (· = initial Bool) history s ∧
      (true, .ret (.getLogger (ascii "net")) (.returned (some 1))) ∈ history ∧
      (false, .ret (.getLogger (ascii "net")) (.returned (some 1))) ∈ history ∧
      (s.shared.manager.loggers 1).name = ascii "net" := by
  let render : Formatter → LogRecordView → Bytes := fun _ record => record.message
  let net : Call := .getLogger (ascii "net")
  let returned : Op := .ret net (.returned (some 1))
  let turns : List (Bool × Choice) := List.replicate 4 (false, .proceed) ++ List.replicate 8 (true, .proceed) ++
    [(false, .proceed), (false, .call net), (true, .call net)]
  let history : List (Bool × Op) := (false, returned) :: List.replicate 3 (false, .silent) ++
    (true, returned) :: List.replicate 7 (true, .silent) ++
    [(false, .silent), (false, .call net), (true, .call net)]
  obtain ⟨s, hturns⟩ : ∃ s, Interleaving.schedule (move render) (initial Bool) turns = some (history, s) := ⟨_, rfl⟩
  have hrun : Run (Step render) (· = initial Bool) history s :=
    Interleaving.run_of_schedule (fun _ _ _ choice _ _ _ hmove => ⟨choice, hmove⟩) rfl hturns
  have htrue : (true, returned) ∈ history := by simp [history]
  have hfalse : (false, returned) ∈ history := by simp [history]
  exact ⟨history, s, hrun, htrue, hfalse, ((names_have_loggers render history s hrun).2.1 true _ 1 htrue).2.1⟩

end Registry

/-! ## The spin lock -/

namespace SpinLock

/-- However the threads interleave, the flag is set exactly while one thread is between its acquisition and its
release, an attempt that fails changes nothing, and once all threads have finished every round is counted. -/
theorem counts_every_round {T : Type} [Fintype T] (counter : UInt64) (rounds : T → Nat) (history : List (T × Op))
    (s : Process T) (h : Run Step (· = initial counter rounds) history s) :
    (s.shared.mutex = true ↔ ∃! t, (s.threads t).pc.holds = true) ∧
    (∀ t u, (s.threads t).pc.holds = true → (s.threads u).pc.holds = true → t = u) ∧
    (∀ t s', Step s (t, .tryLock false) s' →
      s'.shared = s.shared ∧ (s.threads t).pc = .tryLock ∧ s'.threads t = { s.threads t with pc := .start } ∧
        ∀ u, u ≠ t → s'.threads u = s.threads u) ∧
    ((∀ t, (s.threads t).Finished) → s.shared.counter = counter + UInt64.ofNat (∑ t, rounds t)) := by
  have hvalid := valid_of_run h
  refine ⟨?_, hvalid.unique, ?_, ?_⟩
  · rw [hvalid.mutex]
    constructor
    · rintro ⟨t, ht⟩
      exact ⟨t, ht, fun u hu => hvalid.unique u t hu ht⟩
    · rintro ⟨t, ht, _⟩
      exact ⟨t, ht⟩
  · rintro t s' ⟨⟨tryLock, hmove⟩, hothers⟩
    obtain ⟨hshared, hpc, hself⟩ := tryLock_failed hmove
    exact ⟨hshared, hpc, hself, hothers⟩
  · intro hfinished
    have hpending : ∑ t, (s.threads t).pending = 0 := by
      refine Finset.sum_eq_zero fun t _ => ?_
      obtain ⟨hpc, hrounds⟩ := hfinished t
      simp [Local.pending, hpc, hrounds]
    have hcounted := counted_of_run h
    rw [hpending] at hcounted
    exact (UInt64.add_zero _).symm.trans hcounted

/-- The second thread tries while the first holds the lock, and then spins until it is free. -/
theorem counts_every_round_two_threads :
    ∃ history s, Run Step (· = initial 5 fun _ : Bool => 1) history s ∧ (false, .tryLock false) ∈ history ∧
      s.shared.counter = 7 := by
  let locks (t : Bool) (n : Nat) : List (Bool × Bool) := List.replicate n (t, false)
  let turns : List (Bool × Bool) := locks false 5 ++ locks true 2 ++ locks false 4 ++ (false, true) ::
    locks true 3
  let history : List (Bool × Op) := [(false, .unlock), (false, .write 7), (false, .read 6),
    (false, .testAndSet false), (false, .test false), (true, .unlock), (true, .write 6), (false, .test true),
    (false, .testAndSet true), (false, .call false), (false, .tryLock false), (false, .call true),
    (true, .read 5), (true, .testAndSet false), (true, .call false)]
  obtain ⟨s, hturns, hfinished⟩ : ∃ s, Interleaving.schedule (fun _ => move) (initial 5 fun _ : Bool => 1) turns =
      some (history, s) ∧ ∀ t, (s.threads t).Finished := by
    refine ⟨_, rfl, ?_⟩
    rintro (_ | _) <;> exact ⟨rfl, rfl⟩
  have hrun : Run Step (· = initial 5 fun _ : Bool => 1) history s :=
    Interleaving.run_of_schedule (fun _ _ _ tryLock _ _ _ hmove => ⟨tryLock, hmove⟩) rfl hturns
  exact ⟨history, s, hrun, by simp [history], (counts_every_round 5 _ history s hrun).2.2.2 hfinished⟩

/-- No thread is ever locked out: wherever a run has come to, it can go on to where all threads have finished, and
then every round is counted. -/
theorem always_finishable {T : Type} [Fintype T] (counter : UInt64) (rounds : T → Nat) (history : List (T × Op))
    (s : Process T) (h : Run Step (· = initial counter rounds) history s) :
    (Run.Stuck Step s → ∀ t, (s.threads t).Finished) ∧
    ∃ later s', Run Step (· = s) later s' ∧ (∀ t, (s'.threads t).Finished) ∧
      s'.shared.counter = counter + UInt64.ofNat (∑ t, rounds t) := by
  refine ⟨fun hstuck => ?_, ?_⟩
  · by_contra hunfinished
    obtain ⟨t, op, s', hstep, _⟩ := (valid_of_run h).exists_advances hunfinished
    exact hstuck _ _ hstep
  · obtain ⟨later, s', hlater, hfinished⟩ := finishes h
    exact ⟨later, s', hlater, hfinished, counted_of_finished (h.append hlater) hfinished⟩

/-- One thread spins while the other holds the lock. -/
theorem always_finishable_two_threads :
    ∃ history s later s', Run Step (· = initial 5 fun _ : Bool => 1) history s ∧ (false, .test true) ∈ history ∧
      Run Step (· = s) later s' ∧ s'.shared.counter = 7 := by
  let turns : List (Bool × Bool) := [(false, false), (false, false), (false, false), (true, false), (true, false)]
  obtain ⟨⟨history, s⟩, hturns, hspins⟩ :
      ∃ run ∈ Interleaving.schedule (fun _ => move) (initial 5 fun _ : Bool => 1) turns,
        (false, .test true) ∈ run.1 :=
    ⟨_, rfl, List.mem_cons_self⟩
  have hrun : Run Step (· = initial 5 fun _ : Bool => 1) history s :=
    Interleaving.run_of_schedule (fun _ _ _ tryLock _ _ _ hmove => ⟨tryLock, hmove⟩) rfl hturns
  obtain ⟨later, s', hlater, _, hcounter⟩ := (always_finishable 5 _ history s hrun).2
  exact ⟨history, s, later, s', hrun, hspins, hlater, hcounter⟩

end SpinLock

namespace AtomicWaitLock

/-- But for its sleeping threads the lock is a spin lock: the mutex is set exactly while one thread is between its
acquisition and its release, an attempt that fails changes nothing, and once all threads have finished every round is
counted. -/
theorem spins_and_counts {T : Type} [DecidableEq T] [Fintype T] (counter : UInt64) (rounds : T → Nat)
    (history : List (T × Op T)) (s : Process T) (h : Run Step (· = initial counter rounds) history s) :
    (∃ history', Run SpinLock.Step (· = SpinLock.initial counter rounds) history' (spin s)) ∧
    (s.shared.mutex = true ↔ ∃! t, (s.threads t).pc.holds = true) ∧
    (∀ t u, (s.threads t).pc.holds = true → (s.threads u).pc.holds = true → t = u) ∧
    (∀ t s', Step s (t, .tryLock false) s' →
      s'.shared = s.shared ∧ s'.threads t = { s.threads t with pc := .start } ∧ ∀ u, u ≠ t → s'.threads u = s.threads u) ∧
    ((∀ t, (s.threads t).Finished) → s.shared.counter = counter + UInt64.ofNat (∑ t, rounds t)) := by
  have hunique (t u : T) (ht : (s.threads t).pc.holds = true) (hu : (s.threads u).pc.holds = true) : t = u := by
    obtain ⟨_, hspin⟩ := spin_of_run h
    exact (SpinLock.valid_of_run hspin).unique t u ((Local.spin_holds _).trans ht) ((Local.spin_holds _).trans hu)
  refine ⟨spin_of_run h, ⟨fun hmutex => ?_, fun ⟨t, ht, _⟩ => holder_locks h ht⟩, hunique, ?_, counted_of_finished h⟩
  · obtain ⟨t, ht⟩ := holder_of_locked h hmutex
    exact ⟨t, ht, fun u hu => hunique u t hu ht⟩
  · rintro t s' ⟨⟨choice, hmove⟩, hothers⟩
    obtain ⟨hshared, hself⟩ := tryLock_failed hmove
    exact ⟨hshared, hself, hothers⟩

/-- One thread takes the lock, and the other goes to sleep on it. -/
theorem run_to_sleep : ∃ history s, Run Step (· = initial 5 fun _ : Bool => 1) history s ∧ s.shared.Asleep true ∧
    s.shared.mutex = true := by
  let step (t : Bool) : Bool × Choice Bool := (t, ⟨false, false, []⟩)
  obtain ⟨⟨history, s⟩, hturns, hasleep, hmutex⟩ :
      ∃ run ∈ Interleaving.schedule move (initial 5 fun _ : Bool => 1)
          [step true, step true, step true, step false, step false],
        run.2.shared.Asleep true ∧ run.2.shared.mutex = true :=
    ⟨_, rfl, List.mem_cons_self, rfl⟩
  have hrun : Run Step (· = initial 5 fun _ : Bool => 1) history s :=
    Interleaving.run_of_schedule (fun _ _ _ choice _ _ _ hmove => ⟨choice, hmove⟩) rfl hturns
  exact ⟨history, s, hrun, hasleep, hmutex⟩

theorem spins_and_counts_sleeper :
    ∃ history s, Run Step (· = initial 5 fun _ : Bool => 1) history s ∧ s.shared.Asleep true ∧
      ∃! t, (s.threads t).pc.holds = true := by
  obtain ⟨history, s, hrun, hasleep, hmutex⟩ := run_to_sleep
  exact ⟨history, s, hrun, hasleep, (spins_and_counts 5 _ history s hrun).2.1.mp hmutex⟩

/-- No wakeup is lost. While a thread sleeps, the lock is held, or a thread has yet to notify somebody who sleeps, or
a thread in `lock` is awake. Whomever `notify_one` chooses to wake, and although no thread wakes up or fails for no
reason, the threads can go on from wherever they have come to until all have finished, and cannot be stuck before. -/
theorem no_lost_wakeup {T : Type} [DecidableEq T] [Fintype T] (counter : UInt64) (rounds : T → Nat)
    (history : List (T × Op T)) (s : Process T) (h : Run Step (· = initial counter rounds) history s) :
    (∀ t, s.shared.Asleep t → (∃ u, (s.threads u).pc.holds = true) ∨
      (∃ u epoch, (s.threads u).pc = .notify epoch ∧ ∃ waiter ∈ s.shared.waiters, waiter.Eligible epoch) ∨
      ∃ u, Contends s.shared u (s.threads u)) ∧
    ∀ policy, (∀ waiters epoch, Wakes waiters epoch (policy waiters epoch)) →
      (Run.Stuck (Sound policy) s → ∀ t, (s.threads t).Finished) ∧
      ∃ later s', Run (Sound policy) (· = s) later s' ∧ (∀ t, (s'.threads t).Finished) ∧
        s'.shared.counter = counter + UInt64.ofNat (∑ t, rounds t) := by
  refine ⟨fun t hasleep => ?_, fun policy hpolicy => ⟨fun hstuck => ?_, ?_⟩⟩
  · obtain ⟨waiter, hwaiter, _⟩ := List.mem_map.mp hasleep
    cases hmutex : s.shared.mutex with
    | true => exact .inl (holder_of_locked h hmutex)
    | false =>
        have hvalid := valid_of_run h
        refine .inr ((hvalid.attended hmutex (List.ne_nil_of_mem hwaiter)).imp_left fun ⟨u, hu⟩ => ?_)
        exact ⟨u, _, hu, waiter, hwaiter, (hvalid.epochs waiter hwaiter).resolve_right (by simp [hmutex])⟩
  · by_contra hunfinished
    obtain ⟨t, op, s', hsound, _⟩ := exists_advances hpolicy h hunfinished
    exact hstuck _ _ hsound
  · obtain ⟨later, s', hlater, hfinished⟩ := finishes hpolicy h
    have hrun := h.append (hlater.mono fun _ _ _ hsound => hsound.step)
    exact ⟨later, s', hlater, hfinished, counted_of_finished hrun hfinished⟩

theorem no_lost_wakeup_sleeper :
    ∃ history s later s', Run Step (· = initial 5 fun _ : Bool => 1) history s ∧ s.shared.Asleep true ∧
      Run (Sound fun waiters _ => waiters.map Waiter.thread) (· = s) later s' ∧ s'.shared.counter = 7 := by
  obtain ⟨history, s, hrun, hasleep, _⟩ := run_to_sleep
  have hpolicy (waiters : List (Waiter Bool)) (epoch : Nat) : Wakes waiters epoch (waiters.map Waiter.thread) :=
    fun ⟨waiter, hwaiter, heligible⟩ => ⟨waiter, hwaiter, heligible, List.mem_map_of_mem hwaiter⟩
  obtain ⟨later, s', hlater, _, hcounter⟩ := ((no_lost_wakeup 5 _ history s hrun).2 _ hpolicy).2
  exact ⟨history, s, later, s', hrun, hasleep, hlater, hcounter⟩

end AtomicWaitLock

end Pans
