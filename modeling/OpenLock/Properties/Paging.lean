import OpenLock.Device.Scripted
import OpenLock.Properties.Store
import OpenLock.Refinement.Commissioning

/-! Paging through the audit log: the retained events are numbered without a hole, and a
reader that goes on from where its last page ended misses nothing without being told. -/
namespace OpenLock
open Controller Effects

variable {P : Primitives} {f : FactoryIdentity} {s : DeviceSnapshot} {pre mid post : List Moment}
  {e e' : AuditEvent} {c : Controller}

section Log
variable {capacity : Nat} {es es' : List AuditEvent} {next next' : UInt64}

/-- The events are numbered one after the other, the first above zero and the last just
below the next cursor. -/
structure Consecutive (es : List AuditEvent) (next : UInt64) : Prop where
  room : es.length < next.toNat
  numbered : es.map (·.cursor.toNat) = List.range' (next.toNat - es.length) es.length

theorem Consecutive.nil : Consecutive [] 1 := ⟨by decide, rfl⟩

theorem Consecutive.push (h : Consecutive es next) (e : AuditEvent) (numbered : e.cursor = next)
    (room : next.toNat + 1 < 2^64) : Consecutive (pushBounded capacity es e) (next + 1) := by
  have above := h.room
  have succ : (next + 1).toNat = next.toNat + 1 := by
    rw [UInt64.toNat_add]
    exact Nat.mod_eq_of_lt room
  have appended : (es ++ [e]).map (·.cursor.toNat)
      = List.range' (next.toNat - es.length) (es.length + 1) := by
    rw [List.map_append, h.numbered, List.range'_1_concat, List.map_singleton, numbered]
    congr 2
    omega
  unfold pushBounded
  simp only [List.length_append, List.length_singleton]
  split
  · refine ⟨?_, ?_⟩
    · simp only [List.length_drop, List.length_append, List.length_singleton]
      omega
    · rw [List.map_drop, appended, List.range'_succ, List.drop_succ_cons, List.drop_zero,
        List.length_drop, List.length_append, List.length_singleton, succ]
      congr 1
      omega
  · refine ⟨?_, ?_⟩
    · simp only [List.length_append, List.length_singleton]
      omega
    · rw [appended, List.length_append, List.length_singleton, succ]
      congr 1
      omega

theorem Consecutive.logs (h : Consecutive es next) (logs : Logs capacity es next es' next') :
    Consecutive es' next' := by
  induction logs with
  | refl => exact h
  | push _ e numbered room ih => exact ih.push e numbered room

/-- A number that is retained belongs to one event. -/
theorem Consecutive.injective (h : Consecutive es next) (he : e ∈ es) (he' : e' ∈ es)
    (same : e.cursor = e'.cursor) : e = e' := by
  have nodup : (es.map (·.cursor.toNat)).Nodup := by
    rw [h.numbered]
    exact List.nodup_range'
  exact List.inj_on_of_nodup_map nodup he he' (congrArg UInt64.toNat same)

/-- The retained numbers. -/
theorem Consecutive.mem_iff (h : Consecutive es next) (k : Nat) :
    (∃ e ∈ es, e.cursor.toNat = k) ↔ next.toNat - es.length ≤ k ∧ k < next.toNat := by
  have above := h.room
  rw [← List.mem_map, h.numbered, List.mem_range'_1]
  omega

/-- A later log: what it still has of the numbers given out before is as it was. -/
structure Continues (a b : DeviceSnapshot) : Prop where
  cursor : a.nextCursor ≤ b.nextCursor
  kept : ∀ e ∈ b.events, e.cursor < a.nextCursor → e ∈ a.events

instance : Std.Refl Continues := ⟨fun _ => ⟨UInt64.le_refl _, fun _ he _ => he⟩⟩

instance : IsTrans DeviceSnapshot Continues :=
  ⟨fun _ _ _ h h' => ⟨UInt64.le_trans h.cursor h'.cursor, fun e he old =>
    h.kept e (h'.kept e he (UInt64.lt_of_lt_of_le old h.cursor)) old⟩⟩

private theorem mem_pushBounded {e x : AuditEvent} (h : x ∈ pushBounded capacity es e) :
    x ∈ es ∨ x = e := by
  unfold pushBounded at h
  simp only at h
  have appended : x ∈ es ++ [e] := by
    split at h
    · exact List.mem_of_mem_drop h
    · exact h
  simpa using appended

theorem Logs.kept (h : Logs capacity es next es' next') (he : e ∈ es') (old : e.cursor < next) :
    e ∈ es := by
  induction h with
  | refl => exact he
  | push before x numbered _ ih =>
    rcases mem_pushBounded he with earlier | rfl
    · exact ih earlier
    · have grown := before.cursor_le
      rw [numbered, UInt64.lt_iff_toNat_lt] at old
      omega

end Log

section Changes
variable {a : Abs} {m n : DeviceSnapshot} {pr : Progress} {ow : Option Active}

/-- Every durable change but a factory reset appends to the log. -/
theorem Change.logs (h : Change P f a m n pr ow) :
    Logs f.info.logCapacity.toNat m.events m.nextCursor n.events n.nextCursor
    ∨ (∃ context cmd, a.request = some (context, cmd) ∧ cmd.action = .factoryReset)
      ∧ n.owner = none ∧ n.events = [] ∧ n.nextCursor = 1 := by
  cases h with
  | upkeep h =>
    obtain ⟨_, h⟩ := h.keeps
    exact .inl h.logged.events
  | accept _ _ _ _ h => exact .inl h.logged.events
  | claim _ _ _ _ _ _ _ _ _ _ _ _ _ h => exact .inl h.logged.events
  | domain _ _ context cmd _ _ _ _ request _ _ _ _ h =>
    cases h with
    | reset action _ _ _ _ result =>
      rw [result]
      exact .inr ⟨⟨context, cmd, request, action⟩, rfl, rfl, rfl⟩
    | replace _ _ _ _ _ _ _ _ _ logged => exact .inl logged.events
    | epoch _ _ _ _ _ _ _ _ _ _ _ _ logged => exact .inl logged.events
  | effect _ _ _ _ _ logged => exact .inl logged.events
  | clock _ _ _ _ _ _ h => exact .inl h.logged.events
  | trialEnded _ _ _ _ _ _ _ logged => exact .inl logged.events

theorem Change.consecutive (h : Change P f a m n pr ow) (before : Consecutive m.events m.nextCursor) :
    Consecutive n.events n.nextCursor := by
  rcases h.logs with logs | ⟨_, _, empty, restarted⟩
  · exact before.logs logs
  · rw [empty, restarted]
    exact .nil

theorem Call.installs_consecutive {call : Call} (h : call.installs f = some n) :
    Consecutive n.events n.nextCursor := by
  cases call with
  | method => cases h
  | construct k =>
    cases k with
    | provision | migrateLegacy =>
      cases h
      exact .nil
    | «open» => cases h

/-- The commit of a factory reset. -/
def Moment.Resets (q : Moment) : Prop :=
  q.Requests (· = .factoryReset) ∧ ∃ n, q.Stores n ∧ n.owner = none

/-- Without a reset a later log continues an earlier one. -/
theorem Run.log_continues (run : Run P f) (split : run.moments = pre ++ mid ++ post)
    (unreset : ∀ q ∈ mid, ¬ q.Resets) {b : DeviceSnapshot} (first : storeAfter pre = some s)
    (last : storeAfter (pre ++ mid) = some b) : Continues s b := by
  refine run.continues split first last ?_
  intro q hq m n a pr ow stores durable
  rcases durable.change.logs with logs | ⟨⟨context, cmd, asked, action⟩, ownerless, _⟩
  · exact ⟨UInt64.le_iff_toNat_le.2 logs.cursor_le, fun e he old => logs.kept he old⟩
  · exact absurd ⟨⟨context, cmd, durable.request ▸ asked, action⟩, n, stores, ownerless⟩
      (unreset q hq)

end Changes

section Pages
variable {after : UInt64} {limit : UInt32} {page : AuditPage}

/-- The event with this number was logged and is no longer retained. -/
def Evicted (s : DeviceSnapshot) (k : UInt64) : Prop :=
  0 < k ∧ k < s.nextCursor ∧ ∀ e ∈ s.events, e.cursor ≠ k

theorem Consecutive.evicted_iff (h : Consecutive s.events s.nextCursor) (k : UInt64) :
    Evicted s k ↔ 0 < k.toNat ∧ k.toNat < s.nextCursor.toNat - s.events.length := by
  have above := h.room
  have absent : (∀ e ∈ s.events, e.cursor ≠ k) ↔ ¬ ∃ e ∈ s.events, e.cursor.toNat = k.toNat := by
    simp only [ne_eq, UInt64.toNat_inj, not_exists, not_and]
  rw [Evicted, absent, h.mem_iff, UInt64.lt_iff_toNat_lt, UInt64.lt_iff_toNat_lt, UInt64.toNat_zero]
  omega

/-- The range of numbers a page with a gap leaves out. -/
structure Skips (after : UInt64) (page : AuditPage) (k : UInt64) : Prop where
  gap : page.gap = true
  above : after < k
  below : ∃ e, page.events.head? = some e ∧ k < e.cursor

/-- A page as its reader needs it: in order, from the requested cursor to the next one, and
whatever it leaves out is announced. -/
structure Complete (after : UInt64) (page : AuditPage) : Prop where
  sorted : page.events.Pairwise (·.cursor < ·.cursor)
  inside : ∀ e ∈ page.events, after < e.cursor ∧ e.cursor ≤ page.nextCursor
  forward : after ≤ page.nextCursor
  covers : ∀ k, after < k → k ≤ page.nextCursor →
    (∃ e ∈ page.events, e.cursor = k) ∨ Skips after page k

private theorem filter_range' (a n after : Nat) : (List.range' a n).filter (fun k => after < k)
    = List.range' (max a (after + 1)) (a + n - max a (after + 1)) := by
  induction n generalizing a with
  | zero =>
    have none : a + 0 - max a (after + 1) = 0 := by omega
    rw [none]
    rfl
  | succ n ih =>
    rw [List.range'_succ, List.filter_cons, ih]
    by_cases above : after < a
    · have first : max a (after + 1) = a := by omega
      have second : max (a + 1) (after + 1) = a + 1 := by omega
      have count : a + (n + 1) - a = (a + 1 + n - (a + 1)) + 1 := by omega
      rw [if_pos (by simpa using above), first, second, count, List.range'_succ]
    · rw [if_neg (by simpa using above)]
      congr 1
      · omega
      · omega

private theorem take_range' (a n k : Nat) :
    (List.range' a n).take k = List.range' a (min k n) := by
  rw [List.range'_eq_map_range, List.range'_eq_map_range, ← List.map_take, List.take_range]

/-- The numbers on a page. -/
theorem readLog_numbered (h : Consecutive s.events s.nextCursor) (after : UInt64) (limit : UInt32) :
    ∃ count, (readLog s after limit).events.map (·.cursor.toNat)
      = List.range' (max (s.nextCursor.toNat - s.events.length) (after.toNat + 1)) count := by
  have wanted : (fun e : AuditEvent => decide (e.cursor > after))
      = (fun k : Nat => decide (after.toNat < k)) ∘ fun e => e.cursor.toNat := by
    funext e
    simp only [Function.comp, gt_iff_lt, UInt64.lt_iff_toNat_lt]
  have numbers : (s.events.filter fun e => e.cursor > after).map (·.cursor.toNat)
      = (s.events.map (·.cursor.toNat)).filter fun k => after.toNat < k := by
    rw [List.filter_map, wanted]
  change ∃ count, ((s.events.filter fun e => e.cursor > after).take limit.toNat).map _ = _
  rw [List.map_take, numbers, h.numbered, filter_range', take_range']
  exact ⟨_, rfl⟩

theorem readLog_gap (h : Consecutive s.events s.nextCursor) (after : UInt64) (limit : UInt32) :
    (readLog s after limit).gap = true
      ↔ after.toNat + 1 < s.nextCursor.toNat - s.events.length := by
  have first : ((s.events.head?.map (·.cursor)).getD s.nextCursor).toNat
      = s.nextCursor.toNat - s.events.length := by
    have numbered := h.numbered
    cases hs : s.events with
    | nil => rfl
    | cons e es =>
      rw [hs, List.map_cons, List.length_cons, List.range'_succ] at numbered
      exact (List.cons.inj numbered).1
  have below := s.nextCursor.toNat_lt
  have small := after.toNat_lt
  change decide (saturatingAdd after 1 < _) = true ↔ _
  rw [decide_eq_true_eq, UInt64.lt_iff_toNat_lt, first]
  -- the sum saturates only where no number is left to be given out
  unfold saturatingAdd checkedAdd
  split
  · rename_i fits
    rw [Option.getD_some, UInt64.toNat_add, Nat.mod_eq_of_lt fits]
    rfl
  · rename_i full
    have one : (1 : UInt64).toNat = 1 := rfl
    have top : (2^64 - 1 : UInt64).toNat = 2^64 - 1 := by decide +kernel
    rw [Option.getD_none, top]
    omega

/-- The last number on a page, or the requested one on an empty page. -/
private theorem readLog_next {first count : Nat}
    (numbered : (readLog s after limit).events.map (·.cursor.toNat) = List.range' first count) :
    (readLog s after limit).nextCursor.toNat
      = if count = 0 then after.toNat else first + count - 1 := by
  have last : (readLog s after limit).events.getLast?.map (·.cursor.toNat)
      = if count = 0 then none else some (first + count - 1) := by
    rw [← List.getLast?_map, numbered, List.getLast?_range']
  change (((readLog s after limit).events.getLast?.map (·.cursor)).getD after).toNat = _
  generalize (readLog s after limit).events.getLast? = e at last
  cases e with
  | none =>
    split at last
    · rename_i empty
      rw [if_pos empty]
      rfl
    · cases last
  | some e =>
    split at last
    · cases last
    · rename_i filled
      rw [if_neg filled]
      exact Option.some.inj last

/-- A page of a log without holes is complete, and announces exactly what has been evicted. -/
theorem readLog_complete (h : Consecutive s.events s.nextCursor) (after : UInt64)
    (limit : UInt32) : Complete after (readLog s after limit) := by
  obtain ⟨count, numbered⟩ := readLog_numbered h after limit
  have next := readLog_next numbered
  have gap := readLog_gap h after limit
  generalize readLog s after limit = page at numbered next gap
  generalize s.nextCursor.toNat - s.events.length = oldest at numbered next gap
  have mem : ∀ k, (∃ e ∈ page.events, e.cursor.toNat = k)
      ↔ max oldest (after.toNat + 1) ≤ k ∧ k < max oldest (after.toNat + 1) + count := by
    intro k
    rw [← List.mem_map, numbered, List.mem_range'_1]
  refine ⟨?_, fun e he => ?_, ?_, fun k above below => ?_⟩
  · have increasing : (page.events.map (·.cursor.toNat)).Pairwise (· < ·) := by
      rw [numbered]
      exact List.pairwise_lt_range' 1
    exact (List.pairwise_map.1 increasing).imp fun lt => UInt64.lt_iff_toNat_lt.2 lt
  · obtain ⟨low, high⟩ := (mem e.cursor.toNat).1 ⟨e, he, rfl⟩
    rw [if_neg (by omega)] at next
    rw [UInt64.lt_iff_toNat_lt, UInt64.le_iff_toNat_le, next]
    omega
  · rw [UInt64.le_iff_toNat_le, next]
    split
    · exact Nat.le_refl _
    · omega
  · rw [UInt64.lt_iff_toNat_lt] at above
    rw [UInt64.le_iff_toNat_le, next] at below
    by_cases empty : count = 0
    · rw [if_pos empty] at below
      omega
    · rw [if_neg empty] at below
      by_cases retained : max oldest (after.toNat + 1) ≤ k.toNat
      · obtain ⟨e, he, same⟩ := (mem k.toNat).2 ⟨retained, by omega⟩
        exact .inl ⟨e, he, UInt64.toNat_inj.1 same⟩
      · -- the page starts with the oldest retained event, above the number asked for
        have head : page.events.head?.map (·.cursor.toNat) = some (max oldest (after.toNat + 1)) := by
          rw [← List.head?_map, numbered, List.head?_range', if_neg empty]
        obtain ⟨e, first, same⟩ := Option.map_eq_some_iff.1 head
        refine .inr ⟨gap.2 (by omega), UInt64.lt_iff_toNat_lt.2 above, e, first, ?_⟩
        rw [UInt64.lt_iff_toNat_lt, same]
        omega

theorem readLog_gap_iff (h : Consecutive s.events s.nextCursor) (after : UInt64)
    (limit : UInt32) : (readLog s after limit).gap = true ↔ ∃ k, after < k ∧ Evicted s k := by
  have bound := s.nextCursor.toNat_lt
  rw [readLog_gap h]
  constructor
  · intro missing
    have fits : after.toNat + 1 < 2^64 := by omega
    have succ : (after + 1).toNat = after.toNat + 1 := by
      rw [UInt64.toNat_add]
      exact Nat.mod_eq_of_lt fits
    refine ⟨after + 1, ?_, (h.evicted_iff _).2 ?_⟩
    · rw [UInt64.lt_iff_toNat_lt, succ]
      exact Nat.lt_succ_self _
    · omega
  · rintro ⟨k, above, evicted⟩
    have gone := ((h.evicted_iff k).1 evicted).2
    rw [UInt64.lt_iff_toNat_lt] at above
    omega

end Pages

section Replies
variable {after : UInt64} {limit : UInt32}

/-- A page shows the log of the controller that returns it. -/
theorem handle_paged {l : Lock P f} {context : SessionContext} {cmd : Command} (h : Coupled f c l.1)
    (recorded : l.1.failing = none) (fresh : l.1.progress = .fresh)
    (request : l.1.request = some (context, cmd)) (entered : l.1.entry = some c)
    (action : cmd.action = .readLog after limit) :
    SimS (lockSpec P f) (handle P context cmd) c l fun r c' _ => ∀ y, r.result = .ok y →
      c'.poisoned = false ∧ y = .audit (readLog c'.state after limit) := by
  have dispatched : SimE (lockSpec P f) (dispatch P context cmd) c l fun r c' s' =>
      Verdict f r c' s'.1 ∧ ∀ y, r = .ok y →
        c'.poisoned = false ∧ y = .audit (readLog c'.state after limit) := by
    refine dispatch_rule h recorded fresh request entered
      (fun e c' s' verdict _ _ => ⟨verdict, fun _ h => by cases h⟩) ?_
    intro now c' s' passed _
    simp only [action]
    refine (authorize_spec passed.toReady context cmd).bind ?_ ?_
    · rintro g c'' s'' ⟨⟨ready, _⟩, _⟩
      refine ⟨ready, ?_⟩
      rintro _ ⟨⟩
      exact ⟨Ready.live ready, rfl⟩
    · rintro e c'' s'' ⟨⟨verdict, _⟩, _⟩
      exact ⟨verdict, fun _ h => by cases h⟩
  refine handle_rule dispatched ?_ ?_ ?_ ?_
  · exact fun _ _ _ post => post.1
  · rintro y c' s' ⟨_, answered⟩ _ ⟨⟩
    exact answered y rfl
  · exact fun _ _ _ _ _ h => by cases h
  · exact fun _ _ _ _ _ _ _ _ _ _ _ _ _ _ h => by cases h

/-- A request for a page of the log that was answered with one. -/
structure PageRead (P : Primitives) (f : FactoryIdentity) where
  record : Record P f
  after : UInt64
  page : AuditPage
  answered : ∃ context cmd limit, record.call.request record.before.controller = some (context, cmd)
    ∧ cmd.action = .readLog after limit
    ∧ record.output = some (.response ⟨cmd.action.opcode, .ok (.audit page)⟩)

/-- The page shows the log in the store when the request returns. -/
theorem PageRead.stored (x : PageRead P f) (run : Run P f) (called : x.record ∈ run.records) :
    ∃ d limit, x.record.after.disk = some d ∧ x.page = readLog d x.after limit := by
  obtain ⟨context, cmd, limit, asked, action, output⟩ := x.answered
  obtain ⟨l, l', follows⟩ := run.follows called
  obtain ⟨c, found⟩ : ∃ c, x.record.before.controller = some c := by
    refine x.record.controller ?_
    exact Call.request_method asked
  rw [found] at asked
  obtain ⟨y, c', response, left, paged⟩ := follows.before.responds found asked
    (Q := fun y c' => ∀ reply, y.result = .ok reply →
      c'.poisoned = false ∧ reply = .audit (readLog c'.state x.after limit))
    (fun _ h recorded fresh request entered =>
      handle_paged h recorded fresh request entered action) output
  cases response
  obtain ⟨live, same⟩ := paged _ rfl
  have coupled := follows.after.controller c' left
  have disk := l'.2.synced (coupled.poisoned.trans live) _ coupled.mem
  exact ⟨c'.state, limit, follows.after.disk ▸ disk, Reply.audit.inj same⟩

end Replies

section History
variable {a b : DeviceSnapshot}

theorem Run.consecutive (run : Run P f) {pre post : List Moment} (split : run.moments = pre ++ post)
    (stored : storeAfter pre = some s) : Consecutive s.events s.nextCursor := by
  have always : Run.Inductive (Throughout fun d => Consecutive d.events d.nextCursor :
      List Moment → Lock P f → Prop) :=
    Throughout.inductively (fun _ _ => Call.installs_consecutive)
      fun _ _ _ _ _ change _ => change.consecutive
  obtain ⟨l, holds, forward⟩ := run.along (always.and Forward.inductively) split
  exact holds.1 s (forward.disk.trans stored)

theorem Run.controller_consecutive (run : Run P f) (found : run.final.controller = some c) :
    Consecutive c.state.events c.state.nextCursor := by
  have always : Run.Inductive (Throughout fun d => Consecutive d.events d.nextCursor :
      List Moment → Lock P f → Prop) :=
    Throughout.inductively (fun _ _ => Call.installs_consecutive)
      fun _ _ _ _ _ change _ => change.consecutive
  obtain ⟨l, tracks, holds⟩ := run.history always
  exact holds.2 _ (tracks.controller c found).mem

/-- An event of an earlier log is either still there or evicted. -/
theorem Run.kept_or_evicted (run : Run P f) (unreset : ∀ q ∈ run.moments, ¬ q.Resets)
    (split : run.moments = pre ++ mid ++ post) (first : storeAfter pre = some a)
    (last : storeAfter (pre ++ mid) = some b) (he : e ∈ a.events) :
    e ∈ b.events ∨ Evicted b e.cursor := by
  have early : Consecutive a.events a.nextCursor :=
    run.consecutive (split.trans (List.append_assoc _ _ _)) first
  have continues := run.log_continues split
    (fun q hq => unreset q (by rw [split]; simp [hq])) first last
  obtain ⟨low, high⟩ := (early.mem_iff e.cursor.toNat).1 ⟨e, he, rfl⟩
  have old : e.cursor < a.nextCursor := UInt64.lt_iff_toNat_lt.2 high
  by_cases gone : ∀ e' ∈ b.events, e'.cursor ≠ e.cursor
  · have room := early.room
    refine .inr ⟨?_, UInt64.lt_of_lt_of_le old continues.cursor, gone⟩
    rw [UInt64.lt_iff_toNat_lt, UInt64.toNat_zero]
    omega
  · simp only [ne_eq, not_forall, not_not] at gone
    obtain ⟨e', he', same⟩ := gone
    have before : e' ∈ a.events := continues.kept e' he' (by rw [same]; exact old)
    rw [← early.injective before he same]
    exact .inl he'

/-- No two logs of a run without a reset disagree about a number. -/
theorem Run.events_agree (run : Run P f) (unreset : ∀ q ∈ run.moments, ¬ q.Resets)
    {pre post pre' post' : List Moment} (split : run.moments = pre ++ post)
    (split' : run.moments = pre' ++ post') (first : storeAfter pre = some a)
    (second : storeAfter pre' = some b) (he : e ∈ a.events) (he' : e' ∈ b.events)
    (same : e'.cursor = e.cursor) : e' = e := by
  -- The later log decides: its event is old for the earlier one, so it is the earlier one's.
  have ordered : ∀ {pre mid post : List Moment} {a b : DeviceSnapshot} {e e' : AuditEvent},
      run.moments = pre ++ mid ++ post → storeAfter pre = some a →
      storeAfter (pre ++ mid) = some b → e ∈ a.events → e' ∈ b.events → e'.cursor = e.cursor →
      e' = e := by
    intro pre mid post a b e e' split first second he he' same
    have early : Consecutive a.events a.nextCursor :=
      run.consecutive (split.trans (List.append_assoc _ _ _)) first
    have continues := run.log_continues split
      (fun q hq => unreset q (by rw [split]; simp [hq])) first second
    have old := ((early.mem_iff e.cursor.toNat).1 ⟨e, he, rfl⟩).2
    exact early.injective (continues.kept e' he' (by rw [same]; exact UInt64.lt_iff_toNat_lt.2 old))
      he same
  have order : pre <+: pre' ∨ pre' <+: pre :=
    List.prefix_or_prefix_of_prefix ⟨post, split.symm⟩ ⟨post', split'.symm⟩
  rcases order with ⟨mid, rfl⟩ | ⟨mid, rfl⟩
  · exact ordered split' first second he he' same
  · exact (ordered split second first he' he same.symm).symm

end History

section Readers
variable {x : PageRead P f} {reads : List (PageRead P f)}

/-- A reader's pages: each request asks from where the page before it ended, while anything
else may happen in between. -/
structure Reader (run : Run P f) (reads : List (PageRead P f)) : Prop where
  order : (reads.map PageRead.record).Sublist run.records
  chained : reads.IsChain fun x y => y.after = x.page.nextCursor

theorem Reader.called {run : Run P f} (h : Reader run reads) (hx : x ∈ reads) :
    x.record ∈ run.records := h.order.subset (List.mem_map_of_mem hx)

/-- A reader goes forward. -/
private theorem chained_forward (chained : (x :: reads).IsChain fun x y => y.after = x.page.nextCursor)
    (complete : ∀ y ∈ x :: reads, Complete y.after y.page) :
    ∀ y ∈ reads, x.page.nextCursor ≤ y.after := by
  induction reads generalizing x with
  | nil => exact fun _ h => by cases h
  | cons next reads ih =>
    obtain ⟨follows, rest⟩ := List.isChain_cons_cons.1 chained
    have later := ih rest fun y hy => complete y (List.mem_cons_of_mem _ hy)
    have forward := (complete next (by simp)).forward
    intro y hy
    rcases List.mem_cons.1 hy with rfl | hy
    · exact UInt64.le_of_eq follows.symm
    · exact UInt64.le_trans (UInt64.le_of_eq follows.symm)
        (UInt64.le_trans forward (later y hy))

/-- A reader's events come in order. -/
private theorem chained_sorted (chained : reads.IsChain fun x y => y.after = x.page.nextCursor)
    (complete : ∀ y ∈ reads, Complete y.after y.page) :
    (reads.flatMap (·.page.events)).Pairwise (·.cursor < ·.cursor) := by
  induction reads with
  | nil => exact .nil
  | cons x reads ih =>
    have here := complete x List.mem_cons_self
    have forward := chained_forward chained complete
    rw [List.flatMap_cons, List.pairwise_append]
    refine ⟨here.sorted, ih chained.of_cons fun y hy => complete y (List.mem_cons_of_mem _ hy), ?_⟩
    intro e he e' he'
    obtain ⟨y, hy, inside⟩ := List.mem_flatMap.1 he'
    have later := (complete y (List.mem_cons_of_mem _ hy)).inside e' inside
    exact UInt64.lt_of_le_of_lt (here.inside e he).2
      (UInt64.lt_of_le_of_lt (forward y hy) later.1)

/-- What a reader passes over it has received or been told of. -/
private theorem chained_covers (chained : reads.IsChain fun x y => y.after = x.page.nextCursor)
    (complete : ∀ y ∈ reads, Complete y.after y.page) {first last : PageRead P f}
    (head : reads.head? = some first) (final : reads.getLast? = some last) {k : UInt64}
    (above : first.after < k) (below : k ≤ last.page.nextCursor) :
    (∃ y ∈ reads, ∃ e ∈ y.page.events, e.cursor = k) ∨ ∃ y ∈ reads, Skips y.after y.page k := by
  induction reads generalizing first with
  | nil => cases head
  | cons x reads ih =>
    cases head
    by_cases onPage : k ≤ x.page.nextCursor
    · rcases (complete x List.mem_cons_self).covers k above onPage with received | skipped
      · exact .inl ⟨x, List.mem_cons_self, received⟩
      · exact .inr ⟨x, List.mem_cons_self, skipped⟩
    · cases reads with
      | nil =>
        cases final
        exact absurd below onPage
      | cons next reads =>
        obtain ⟨follows, rest⟩ := List.isChain_cons_cons.1 chained
        have later := ih rest (fun y hy => complete y (List.mem_cons_of_mem _ hy)) rfl
          (by simpa using final) (by rw [follows]; exact UInt64.not_le.1 onPage)
        rcases later with ⟨y, hy, received⟩ | ⟨y, hy, skipped⟩
        · exact .inl ⟨y, List.mem_cons_of_mem _ hy, received⟩
        · exact .inr ⟨y, List.mem_cons_of_mem _ hy, skipped⟩

end Readers

/-- Paging through the log loses nothing silently. The retained events, in the store and in
memory, are numbered without a hole up to the next cursor. In a run without a factory reset an
event stays as it was logged until it is evicted, and whoever reads page after page, each from
where the last one ended, receives events in strictly increasing order and unaltered; a page
reports a gap exactly when an event above the requested cursor has been evicted; and every
number the reader passes over was received or lies in what a page with a gap skipped. -/
theorem paging_loses_nothing (run : Run P f) :
    (∀ pre post, run.moments = pre ++ post → ∀ d, storeAfter pre = some d →
      Consecutive d.events d.nextCursor)
    ∧ (∀ c, run.final.controller = some c → Consecutive c.state.events c.state.nextCursor)
    ∧ ((∀ q ∈ run.moments, ¬ q.Resets) →
      (∀ pre mid post a b, run.moments = pre ++ mid ++ post → storeAfter pre = some a →
        storeAfter (pre ++ mid) = some b → ∀ e ∈ a.events, e ∈ b.events ∨ Evicted b e.cursor)
      ∧ ∀ reads : List (PageRead P f), Reader run reads →
        (reads.flatMap (·.page.events)).Pairwise (·.cursor < ·.cursor)
        ∧ (∀ x ∈ reads, ∀ e ∈ x.page.events, ∀ pre post d, run.moments = pre ++ post →
          storeAfter pre = some d → ∀ e' ∈ d.events, e'.cursor = e.cursor → e' = e)
        ∧ (∀ x ∈ reads, ∃ d, x.record.after.disk = some d
          ∧ (x.page.gap = true ↔ ∃ k, x.after < k ∧ Evicted d k))
        ∧ ∀ first last, reads.head? = some first → reads.getLast? = some last →
          ∀ k, first.after < k → k ≤ last.page.nextCursor →
            (∃ x ∈ reads, ∃ e ∈ x.page.events, e.cursor = k)
            ∨ ∃ x ∈ reads, Skips x.after x.page k) := by
  refine ⟨fun pre post split d => run.consecutive split, fun c => run.controller_consecutive,
    fun unreset => ⟨?_, ?_⟩⟩
  · intro pre mid post a b split first last e he
    exact run.kept_or_evicted unreset split first last he
  · intro reads reader
    have shown : ∀ x ∈ reads, ∃ d limit pre post, x.record.after.disk = some d
        ∧ run.moments = pre ++ post ∧ storeAfter pre = some d
        ∧ Consecutive d.events d.nextCursor ∧ x.page = readLog d x.after limit := by
      intro x hx
      obtain ⟨d, limit, disk, page⟩ := x.stored run (reader.called hx)
      obtain ⟨rs, rest, split⟩ := List.append_of_mem (reader.called hx)
      obtain ⟨order, stored⟩ := run.after_disk split
      have stored := stored.trans disk
      exact ⟨d, limit, _, _, disk, order, stored, run.consecutive order stored, page⟩
    have complete : ∀ x ∈ reads, Complete x.after x.page := by
      intro x hx
      obtain ⟨d, limit, _, _, _, _, _, numbered, page⟩ := shown x hx
      rw [page]
      exact readLog_complete numbered x.after limit
    refine ⟨chained_sorted reader.chained complete, ?_, ?_, ?_⟩
    · intro x hx e he pre post d split stored e' he' same
      obtain ⟨d', limit, pre', post', _, split', stored', _, page⟩ := shown x hx
      rw [page] at he
      exact run.events_agree unreset split' split stored' stored
        (List.mem_of_mem_filter (List.mem_of_mem_take he)) he' same
    · intro x hx
      obtain ⟨d, limit, _, _, disk, _, _, numbered, page⟩ := shown x hx
      rw [page]
      exact ⟨d, disk, readLog_gap_iff numbered x.after limit⟩
    · intro first last head final k above below
      exact chained_covers reader.chained complete head final above below

namespace Bench
/-! A reader who is overtaken: the log has room for four events, and each lock request logs two. -/

def logging : FactoryIdentity := { factory with info := { factory.info with capabilities := 0x10f } }

def paged : Run primitives logging :=
  [send 1 (some 1) .lock, send 1 (some 2) .lock, send 1 none (.readLog 0 1),
    send 1 (some 3) .lock, send 1 none (.readLog 1 8)].foldl (·.then (steady 1) ·) imported

theorem paged_six : paged.records.length = 6 := by decide +kernel

def shown (r : Record primitives logging) : AuditPage :=
  match r.output with
  | some (.response ⟨_, .ok (.audit page)⟩) => page
  | _ => ⟨[], 0, false⟩

def firstPage : PageRead primitives logging :=
  let r := (paged.records.take 4).get ⟨3, by simp [paged_six]⟩
  ⟨r, 0, shown r, _, _, 1, rfl, rfl, by decide +kernel⟩

def secondPage : PageRead primitives logging :=
  let r := (paged.records.drop 4).get ⟨1, by simp [paged_six]⟩
  ⟨r, 1, shown r, _, _, 8, rfl, rfl, by decide +kernel⟩

theorem reader : Reader paged [firstPage, secondPage] where
  order := by
    rw [← List.take_append_drop 4 paged.records]
    exact (List.singleton_sublist.2 (List.get_mem _ _)).append
      (List.singleton_sublist.2 (List.get_mem _ _))
  chained := .cons_cons (by decide +kernel) (.singleton _)

end Bench

/-- The second page reports the event that the reader has missed. -/
theorem paging_loses_nothing_overtaken : Bench.firstPage.page.events.map (·.cursor) = [1]
    ∧ Bench.secondPage.page.events.map (·.cursor) = [3, 4, 5, 6]
    ∧ ∃ d, Bench.secondPage.record.after.disk = some d ∧ ∃ k, 1 < k ∧ Evicted d k := by
  have unreset : ∀ q ∈ Bench.paged.moments, ¬ q.Resets := by
    have requested : ∀ q ∈ Bench.paged.moments,
        (q.request.all fun x => x.2.action ≠ .factoryReset) = true := by decide +kernel
    rintro q hq ⟨⟨context, cmd, asked, action⟩, _⟩
    have other := requested q hq
    rw [asked] at other
    exact of_decide_eq_true other action
  have pages : Bench.firstPage.page.events.map (·.cursor) = [1]
      ∧ Bench.secondPage.page.events.map (·.cursor) = [3, 4, 5, 6]
      ∧ Bench.secondPage.page.gap = true := by decide +kernel
  obtain ⟨first, second, gap⟩ := pages
  obtain ⟨_, _, reported, _⟩ := ((paging_loses_nothing Bench.paged).2.2 unreset).2 _ Bench.reader
  obtain ⟨d, disk, missed⟩ := reported Bench.secondPage (by simp)
  exact ⟨first, second, d, disk, missed.1 gap⟩

end OpenLock
