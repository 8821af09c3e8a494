import OpenLock.Transport.IsoDep
import Mathlib.Data.List.Infix

/-! ISO-DEP streams: what arrives when nothing is lost, when fragments are lost, and when a
fragment is refused. -/
namespace OpenLock
open Codec IsoDepCodec

variable {c : IsoDepCodec} {messages : List Bytes} {ps : List Piece} {message : Bytes}
  {sequence : UInt8}

section Complete

private theorem room : 0 < maxApduPayload := by decide

theorem IsoDepCodec.Sendable.pieces_ne (h : Sendable message) : pieces message ≠ [] := by
  intro none
  have empty : (chunks maxApduPayload message).flatten = message := flatten_chunks room
  rw [List.map_eq_nil_iff.1 none] at empty
  have positive := h.positive
  rw [← empty] at positive
  exact Nat.lt_irrefl 0 positive

theorem IsoDepCodec.payloads_pieces (message : Bytes) : (pieces message).map Prod.snd = chunks maxApduPayload message := by
  rw [pieces, List.map_map]
  exact List.map_id _

/-- The fragments of one message return it with the last of them. -/
theorem IsoDepCodec.Idle.receives (idle : c.Idle) (h : Sendable message) (sequence : UInt8) :
    (c.pushAll (number sequence (pieces message))).1
        = List.replicate ((number sequence (pieces message)).length - 1) (.ok none) ++ [.ok (some message)]
      ∧ (c.pushAll (number sequence (pieces message))).2.Idle := by
  have whole : ((pieces message).map Prod.snd).flatten = message := by
    rw [payloads_pieces, flatten_chunks room]
  have fits : ∀ piece ∈ pieces message, piece.Fits ∧ piece.1.toNat = message.length := by
    intro piece mem
    refine ⟨fits_of_mem_pieces h mem, ?_⟩
    obtain ⟨chunk, _, rfl⟩ := List.mem_map.1 mem
    exact h.total
  have received := idle.pushAll h.pieces_ne fits (by rw [whole]) sequence
  rw [whole] at received
  rwa [length_number]

/-- What the fragments of a stream are answered, one message after the other. -/
def answers (groups : List (List Bytes)) (messages : List Bytes) :
    List (Except TransportError (Option Bytes)) :=
  (groups.zip messages).flatMap fun (group, message) =>
    List.replicate (group.length - 1) (.ok none) ++ [.ok (some message)]

theorem IsoDepCodec.Idle.receives_all (idle : c.Idle) (h : ∀ m ∈ messages, Sendable m) (sequence : UInt8) :
    (c.pushAll (groups sequence messages).flatten).1 = answers (groups sequence messages) messages := by
  induction messages generalizing c sequence with
  | nil => rfl
  | cons message messages ih =>
    obtain ⟨first, rest⟩ := List.forall_mem_cons.1 h
    obtain ⟨received, between⟩ := idle.receives first sequence
    rw [groups, List.flatten_cons, pushAll_append, received, ih between rest]
    rfl

theorem IsoDepCodec.length_groups (sequence : UInt8) (messages : List Bytes) :
    (groups sequence messages).length = messages.length := by
  induction messages generalizing sequence with
  | nil => rfl
  | cons message messages ih => rw [groups, List.length_cons, ih, List.length_cons]

theorem IsoDepCodec.mem_number {fragment : Bytes} (mem : fragment ∈ number sequence ps) :
    ∃ s, ∃ piece ∈ ps, fragment = apdu s piece.1 piece.2 := by
  induction ps generalizing sequence with
  | nil => cases mem
  | cons piece rest ih =>
    rcases List.mem_cons.1 mem with rfl | later
    · exact ⟨_, piece, List.mem_cons_self, rfl⟩
    · obtain ⟨s, q, inside, same⟩ := ih later
      exact ⟨s, q, List.mem_cons_of_mem _ inside, same⟩

/-- Streams of any length arrive: each message with its last fragment, nothing in between. -/
theorem apdu_streams_round_trip (sender receiver : IsoDepCodec) (messages : List Bytes)
    (sizes : ∀ m ∈ messages, 1 ≤ m.length ∧ m.length ≤ 4096) :
    ∃ groups, (sender.encodeAll messages).1 = .ok groups ∧ groups.length = messages.length
      ∧ (∀ fragment ∈ groups.flatten, fragment.length ≤ 243)
      ∧ (receiver.reset.pushAll groups.flatten).1 = answers groups messages := by
  have sendable : ∀ m ∈ messages, Sendable m := fun m hm => ⟨(sizes m hm).1, (sizes m hm).2⟩
  refine ⟨groups sender.sequence messages, ?_, length_groups _ _, fun fragment mem => ?_, ?_⟩
  · rw [encodeAll_eq sendable]
  · rw [flatten_groups] at mem
    obtain ⟨s, piece, inside, rfl⟩ := mem_number mem
    have short := (fits_of_mem_stream sendable inside).short
    simp only [apdu, toBeBytes, List.length_cons, List.length_append, List.length_nil]
    unfold maxApduPayload at short
    omega
  · exact (Idle.reset receiver).receives_all sendable _

/-- A long and a short message. -/
def longAndShort : List Bytes := [List.replicate 500 7, [8]]

/-- They are sent across the wrap of the number. -/
theorem apdu_streams_round_trip_wrapping :
    (∀ m ∈ longAndShort, 1 ≤ m.length ∧ m.length ≤ 4096)
    ∧ ∃ groups, (IsoDepCodec.encodeAll ⟨254, none, [], none⟩ longAndShort).1 = .ok groups
      ∧ groups.length = longAndShort.length ∧ (∀ fragment ∈ groups.flatten, fragment.length ≤ 243)
      ∧ (IsoDepCodec.default.reset.pushAll groups.flatten).1 = answers groups longAndShort :=
  ⟨by decide +kernel, apdu_streams_round_trip ⟨254, none, [], none⟩ .default longAndShort
    (by decide +kernel)⟩

end Complete

section Refused

/-- A fragment that carries more than the length it announces. -/
def Overlong : Bytes → Prop
  | _ :: t₀ :: t₁ :: payload =>
    let total := (fromBeBytes t₀ t₁).toNat
    0 < total ∧ total ≤ maxNdefRecord ∧ payload.length ≤ maxApduPayload ∧ total < payload.length
  | _ => False

/-- What a push does. -/
inductive IsoDepCodec.Pushed (c : IsoDepCodec) (fragment : Bytes) :
    Except TransportError (Option Bytes) × IsoDepCodec → Prop
  | refused (e : TransportError) (sound : c.expected = none → ¬ Overlong fragment) :
      Pushed c fragment (.error e, c)
  | overlong (e : TransportError) (fresh : c.expected = none) (excess : Overlong fragment)
      (sequence : UInt8) (total : Nat) : Pushed c fragment (.error e, c.begin sequence total)
  | more (d : IsoDepCodec) (sound : c.expected = none → ¬ Overlong fragment)
      (busy : d.expected ≠ none) : Pushed c fragment (.ok none, d)
  | complete (message : Bytes) (d : IsoDepCodec) (sound : c.expected = none → ¬ Overlong fragment)
      (idle : d.Idle) : Pushed c fragment (.ok (some message), d)

/-- The end of a push: the fragment is not due or too long, or it is taken. -/
private theorem accept_cases (c : IsoDepCodec) (sequence : UInt8) (total : Nat) (payload : Bytes) :
    (∃ e, c.accept sequence total payload = (.error e, c)
      ∧ (c.expectedSequence ≠ some sequence ∨ total < c.inner.length + payload.length))
    ∨ (∃ d, c.accept sequence total payload = (.ok none, d) ∧ d.expected = c.expected
      ∧ c.inner.length + payload.length ≤ total)
    ∨ ∃ message d, c.accept sequence total payload = (.ok (some message), d) ∧ d.Idle
      ∧ c.inner.length + payload.length ≤ total := by
  unfold accept
  split
  · rename_i other
    exact .inl ⟨_, rfl, .inl other⟩
  · split
    · rename_i excess
      exact .inl ⟨_, rfl, .inr excess⟩
    · rename_i fits
      simp only
      split
      · exact .inr (.inr ⟨_, _, rfl, .reset _, Nat.not_lt.1 fits⟩)
      · exact .inr (.inl ⟨_, rfl, rfl, Nat.not_lt.1 fits⟩)

theorem IsoDepCodec.push_cases (between : c.expected = none → c.Idle) (fragment : Bytes) :
    Pushed c fragment (c.push fragment) := by
  unfold IsoDepCodec.push
  split
  · rename_i sequence t₀ t₁ payload
    simp only
    split
    · rename_i bad
      refine .refused _ fun _ excess => ?_
      obtain ⟨positive, small, short, _⟩ := excess
      simp only [List.length_cons] at bad
      omega
    · rename_i good
      split
      · rename_i fresh
        have begun := (between fresh).begin sequence (fromBeBytes t₀ t₁).toNat
        have empty : (c.begin sequence (fromBeBytes t₀ t₁).toNat).inner.length = 0 := by
          rw [begun.inner]
          rfl
        rcases accept_cases (c.begin sequence (fromBeBytes t₀ t₁).toNat) sequence
          (fromBeBytes t₀ t₁).toNat payload with
          ⟨e, eq, why⟩ | ⟨d, eq, same, fits⟩ | ⟨m, d, eq, idle, fits⟩
        · rw [eq]
          have excess := why.resolve_left fun other => other begun.next
          simp only [List.length_cons, not_or] at good
          have overlong : Overlong (sequence :: t₀ :: t₁ :: payload) := by
            refine ⟨?_, ?_, ?_, ?_⟩ <;> omega
          exact .overlong e fresh overlong _ _
        · rw [eq]
          refine .more d (fun _ excess => ?_) (by rw [same, begun.expected]; simp)
          obtain ⟨_, _, _, excess⟩ := excess
          omega
        · rw [eq]
          refine .complete m d (fun _ excess => ?_) idle
          obtain ⟨_, _, _, excess⟩ := excess
          omega
      · rename_i busy
        split
        · exact .refused _ fun fresh => absurd fresh busy
        · rcases accept_cases c sequence (fromBeBytes t₀ t₁).toNat payload with
            ⟨e, eq, _⟩ | ⟨d, eq, same, _⟩ | ⟨m, d, eq, idle, _⟩
          · rw [eq]
            exact .refused e fun fresh => absurd fresh busy
          · rw [eq]
            exact .more d (fun fresh => absurd fresh busy) (by rwa [same])
          · rw [eq]
            exact .complete m d (fun fresh => absurd fresh busy) idle
  · rename_i short
    refine .refused _ fun _ excess => ?_
    unfold Overlong at excess
    split at excess
    · exact short _ _ _ _ rfl
    · exact excess

/-- Without an expected length nothing is kept. -/
theorem IsoDepCodec.Reachable.idle (h : c.Reachable) (none : c.expected = none) : c.Idle := by
  induction h with
  | default => exact ⟨rfl, rfl, rfl⟩
  | @encode d _ message ih =>
    unfold IsoDepCodec.encode at none ⊢
    split at none
    · rename_i refused
      rw [if_pos refused]
      exact ih none
    · rename_i accepted
      rw [if_neg accepted]
      have idle := ih none
      exact ⟨idle.expected, idle.inner, idle.expectedSequence⟩
  | @push d _ fragment ih =>
    have pushed := push_cases ih fragment
    generalize d.push fragment = result at pushed none ⊢
    cases pushed with
    | refused => exact ih none
    | overlong => cases none
    | more d _ busy => exact absurd none busy
    | complete _ _ _ idle => exact idle
  | reset => exact .reset _

/-- The reassembly is as it was. -/
structure SameReassembly (c c' : IsoDepCodec) : Prop where
  inner : c'.inner = c.inner
  expected : c'.expected = c.expected
  expectedSequence : c'.expectedSequence = c.expectedSequence

/-- A refused fragment disturbs the reassembly exactly when it is the first one and overlong. -/
theorem refused_apdu_harmless_iff (c : IsoDepCodec) (reachable : c.Reachable) (fragment : Bytes) :
    ((∃ e, (c.push fragment).1 = .error e) → SameReassembly c (c.push fragment).2)
      ↔ ¬ (c.expected = none ∧ Overlong fragment) := by
  have pushed := push_cases (fun none => reachable.idle none) fragment
  generalize c.push fragment = result at pushed ⊢
  cases pushed with
  | refused e sound =>
    exact ⟨fun _ h => sound h.1 h.2, fun _ _ => ⟨rfl, rfl, rfl⟩⟩
  | overlong e fresh excess sequence total =>
    refine ⟨fun same => ?_, fun sound => absurd ⟨fresh, excess⟩ sound⟩
    have expected := (same ⟨e, rfl⟩).expected
    rw [fresh] at expected
    cases expected
  | more d sound =>
    refine ⟨fun _ h => sound h.1 h.2, ?_⟩
    rintro _ ⟨e, ⟨⟩⟩
  | complete _ d sound =>
    refine ⟨fun _ h => sound h.1 h.2, ?_⟩
    rintro _ ⟨e, ⟨⟩⟩

/-- Two bytes are announced as one; the message after them is then refused. -/
theorem overlong_first_blocks :
    (∃ e, (IsoDepCodec.default.push [0, 0, 1, 5, 6]).1 = .error e)
    ∧ ¬ SameReassembly .default (IsoDepCodec.default.push [0, 0, 1, 5, 6]).2
    ∧ (IsoDepCodec.encode .default [9, 9]).1 = .ok [[0, 0, 2, 9, 9]]
    ∧ (IsoDepCodec.default.push [0, 0, 2, 9, 9]).1 = .ok (some [9, 9])
    ∧ ((IsoDepCodec.default.push [0, 0, 1, 5, 6]).2.push [0, 0, 2, 9, 9]).1 = .error .conflict := by
  refine ⟨⟨.outOfBounds, by decide⟩, fun same => ?_, by decide, by decide, by decide⟩
  cases same.expected

/-- A fragment out of turn is refused in the middle of a reassembly. -/
theorem refused_apdu_harmless_out_of_turn :
    (IsoDepCodec.default.push [0, 0, 2, 9]).2.Reachable
    ∧ (IsoDepCodec.default.push [0, 0, 2, 9]).2.expected = some 2
    ∧ ¬ ((IsoDepCodec.default.push [0, 0, 2, 9]).2.expected = none ∧ Overlong [5, 0, 2, 9])
    ∧ SameReassembly (IsoDepCodec.default.push [0, 0, 2, 9]).2
      ((IsoDepCodec.default.push [0, 0, 2, 9]).2.push [5, 0, 2, 9]).2 := by
  have reachable : (IsoDepCodec.default.push [0, 0, 2, 9]).2.Reachable := .push .default _
  have sound : ¬ ((IsoDepCodec.default.push [0, 0, 2, 9]).2.expected = none ∧ Overlong [5, 0, 2, 9]) :=
    fun h => by cases h.1
  exact ⟨reachable, rfl, sound, (refused_apdu_harmless_iff _ reachable _).2 sound ⟨.conflict, by decide⟩⟩

end Refused

section Lossy
/-! Fragments of a stream with fewer than 257 fragments, of which some are lost. -/
variable {s : Account} {group : List Bytes}

/-- The fragments taken for the message under way, and the messages returned, each with the
fragments it was put together from. -/
structure Account where
  taken : List Bytes
  returned : List (List Bytes × Bytes)

/-- One more answer of `push`. -/
def Account.add (s : Account) : Bytes × Except TransportError (Option Bytes) → Account
  | (fragment, .ok none) => { s with taken := s.taken ++ [fragment] }
  | (fragment, .ok (some message)) =>
    ⟨[], s.returned ++ [(s.taken ++ [fragment], message)]⟩
  | (_, .error _) => s

def IsoDepCodec.account (c : IsoDepCodec) (fragments : List Bytes) : Account :=
  (fragments.zip (c.pushAll fragments).1).foldl Account.add ⟨[], []⟩

section Accounts
variable {fragments more : List Bytes} {fragment message : Bytes}

theorem IsoDepCodec.length_pushAll (c : IsoDepCodec) (fragments : List Bytes) :
    (c.pushAll fragments).1.length = fragments.length := by
  induction fragments generalizing c with
  | nil => rfl
  | cons fragment fragments ih =>
    simp only [pushAll, List.length_cons, ih]

theorem account_append : c.account (fragments ++ more)
    = (more.zip ((c.pushAll fragments).2.pushAll more).1).foldl Account.add (c.account fragments) := by
  rw [account, pushAll_append, List.zip_append (length_pushAll c fragments).symm, List.foldl_append]
  rfl

theorem account_snoc : c.account (fragments ++ [fragment])
    = (c.account fragments).add (fragment, ((c.pushAll fragments).2.push fragment).1) := by
  rw [account_append]
  rfl

theorem Account.kept {answers : List (Bytes × Except TransportError (Option Bytes))}
    {q : List Bytes × Bytes} (h : q ∈ s.returned) : q ∈ (answers.foldl add s).returned := by
  induction answers generalizing s with
  | nil => exact h
  | cons a answers ih =>
    obtain ⟨f, r | ⟨_ | m⟩⟩ := a
    · exact ih h
    · exact ih h
    · exact ih (List.mem_append_left _ h)

/-- Every returned message is accounted for. -/
theorem account_complete (h : .ok (some message) ∈ (c.pushAll fragments).1) :
    ∃ fs, (fs, message) ∈ (c.account fragments).returned := by
  induction fragments using List.reverseRecOn with
  | nil => cases h
  | append_singleton fragments fragment ih =>
    rw [pushAll_append] at h
    rw [account_append]
    rcases List.mem_append.1 h with old | new
    · obtain ⟨fs, known⟩ := ih old
      exact ⟨fs, Account.kept known⟩
    · have answer : ((c.pushAll fragments).2.push fragment).1 = .ok (some message) :=
        (List.mem_singleton.1 new).symm
      refine ⟨(c.account fragments).taken ++ [fragment], ?_⟩
      change _ ∈ (Account.add _ (fragment, ((c.pushAll fragments).2.push fragment).1)).returned
      rw [answer]
      exact List.mem_append_right _ (List.mem_singleton_self _)

/-- A group that is answered with its last fragment is the end of what was taken. -/
theorem account_group {answers : List (Except TransportError (Option Bytes))} (some : group ≠ [])
    (answered : answers = List.replicate (group.length - 1) (.ok none) ++ [.ok (.some message)]) :
    (s.taken ++ group, message) ∈ ((group.zip answers).foldl Account.add s).returned := by
  subst answered
  induction group generalizing s with
  | nil => exact absurd rfl some
  | cons fragment group ih =>
    cases group with
    | nil => simp [Account.add]
    | cons second group =>
      have next := ih (s := s.add (fragment, .ok none)) (by simp)
      rw [show s.taken ++ fragment :: second :: group = s.taken ++ [fragment] ++ second :: group by simp]
      exact next

end Accounts

/-- A piece with its place in the stream. -/
abbrev Placed := Piece × Nat

/-- The fragment at a place of a stream numbered from `first` on. -/
def Placed.fragment (first : UInt8) (z : Placed) : Bytes :=
  apdu (first + UInt8.ofNat z.2) z.1.1 z.1.2

theorem number_eq_map (first : UInt8) (ps : List Piece) (start : Nat) :
    number (first + UInt8.ofNat start) ps = (ps.zipIdx start).map (Placed.fragment first) := by
  induction ps generalizing start with
  | nil => rfl
  | cons piece rest ih =>
    rw [number, List.zipIdx_cons, List.map_cons, ← ih]
    congr 2
    rw [UInt8.ofNat_add, UInt8.add_assoc]
    rfl

/-- The pieces at consecutive places from `start` on, all of messages of one length. -/
structure Segment (total : Nat) (start : Nat) (seg : List Placed) : Prop where
  places : seg.map Prod.snd = List.range' start seg.length
  totals : ∀ z ∈ seg, z.1.1.toNat = total

/-- The bytes that pieces carry. -/
def carried (zs : List Placed) : Bytes := (zs.map fun z => z.1.2).flatten

variable {first : UInt8} {receiver : IsoDepCodec} {zs : List Placed} {z : Placed}
  {messages : List Bytes} {k i : Nat}

/-- Where the receiver stands once the fragments `zs` are pushed, and what it has taken. -/
inductive Phase (first : UInt8) (receiver : IsoDepCodec) (zs : List Placed) :
    IsoDepCodec → List Bytes → Prop
  | idle {c : IsoDepCodec} (idle : c.Idle) : Phase first receiver zs c []
  | gathering {c : IsoDepCodec} (early seg : List Placed) (split : zs = early ++ seg) (some : seg ≠ [])
      (between : (receiver.pushAll (early.map (Placed.fragment first))).2.Idle) (total start : Nat)
      (segment : Segment total start seg) (short : (carried seg).length < total)
      (state : c.Gathering total (first + UInt8.ofNat (start + seg.length)) (carried seg)) :
      Phase first receiver zs c (seg.map (Placed.fragment first))
  -- the fragment it waits for is past
  | stuck {c : IsoDepCodec} {taken : List Bytes} (total : Nat) (got : Bytes) (due : Nat)
      (state : c.Gathering total (first + UInt8.ofNat due) got) (past : ∃ z ∈ zs, due ≤ z.2) :
      Phase first receiver zs c taken

/-- A message is put together from a segment that was pushed to an idle receiver. -/
def Joins (first : UInt8) (receiver : IsoDepCodec) (zs : List Placed) (fs : List Bytes)
    (message : Bytes) : Prop :=
  ∃ early seg total start, zs = early ++ seg ∧ fs = seg.map (Placed.fragment first)
    ∧ (receiver.pushAll (early.map (Placed.fragment first))).2.Idle
    ∧ Segment total start seg ∧ seg ≠ [] ∧ carried seg = message ∧ message.length = total

section Steps
variable {total start : Nat} {seg : List Placed}

theorem carried_snoc (seg : List Placed) (z : Placed) : carried (seg ++ [z]) = carried seg ++ z.1.2 := by
  simp [carried]

theorem Segment.single (z : Placed) : Segment z.1.1.toNat z.2 [z] :=
  ⟨rfl, fun y mem => by rw [List.mem_singleton.1 mem]⟩

theorem Segment.snoc (h : Segment total start seg) (next : z.2 = start + seg.length)
    (same : z.1.1.toNat = total) : Segment total start (seg ++ [z]) := by
  constructor
  · rw [List.map_append, h.places, List.length_append, List.length_singleton, List.range'_concat,
      List.map_singleton, next, Nat.one_mul]
  · intro y mem
    rcases List.mem_append.1 mem with old | new
    · exact h.totals y old
    · rw [List.mem_singleton.1 new, same]

/-- A place behind a segment is not before its end. -/
theorem Segment.le (h : Segment total start seg) (some : seg ≠ []) {place : Nat}
    (later : ∀ y ∈ seg, y.2 < place) : start + seg.length ≤ place := by
  have positive : 0 < seg.length := List.length_pos_iff.2 some
  have last : start + (seg.length - 1) ∈ seg.map Prod.snd := by
    rw [h.places, List.mem_range'_1]
    omega
  obtain ⟨y, mem, eq⟩ := List.mem_map.1 last
  have := later y mem
  omega

theorem place_injective {a b : Nat} (ha : a < 256) (hb : b < 256)
    (same : first + UInt8.ofNat a = first + UInt8.ofNat b) : a = b := by
  have values := congrArg UInt8.toNat same
  rw [UInt8.toNat_add, UInt8.toNat_add, UInt8.toNat_ofNat', UInt8.toNat_ofNat'] at values
  omega

theorem succ_place (place : Nat) : first + UInt8.ofNat place + 1 = first + UInt8.ofNat (place + 1) := by
  rw [UInt8.ofNat_add, UInt8.add_assoc]
  rfl

/-- A fragment that is not the one waited for is refused. -/
theorem IsoDepCodec.Gathering.push_late {got : Bytes} {due : Nat}
    (h : c.Gathering total (first + UInt8.ofNat due) got) (fits : z.1.Fits) (late : due < z.2)
    (few : z.2 < 256) : ∃ e, c.push (z.fragment first) = (.error e, c) := by
  by_cases same : z.1.1.toNat = total
  · subst same
    unfold Placed.fragment
    rw [h.push fits]
    refine h.accept_stuck _ (.inl fun eq => ?_)
    have := place_injective (by omega) few eq
    omega
  · exact ⟨_, h.push_other fits fun eq => same eq.symm⟩

/-- One more fragment. -/
theorem Phase.step (phase : Phase first receiver zs c s.taken)
    (here : (receiver.pushAll (zs.map (Placed.fragment first))).2 = c) (fits : z.1.Fits)
    (later : ∀ y ∈ zs, y.2 < z.2) (few : z.2 < 256) :
    Phase first receiver (zs ++ [z]) (c.push (z.fragment first)).2
        (s.add (z.fragment first, (c.push (z.fragment first)).1)).taken
      ∧ ∀ q ∈ (s.add (z.fragment first, (c.push (z.fragment first)).1)).returned,
        q ∈ s.returned ∨ Joins first receiver (zs ++ [z]) q.1 q.2 := by
  have newest : z ∈ zs ++ [z] := by simp
  have completes {message : Bytes} (joins : Joins first receiver (zs ++ [z])
      (s.taken ++ [z.fragment first]) message) :
      ∀ q ∈ (s.add (z.fragment first, .ok (some message))).returned,
        q ∈ s.returned ∨ Joins first receiver (zs ++ [z]) q.1 q.2 := by
    intro q mem
    rcases List.mem_append.1 mem with old | new
    · exact .inl old
    · cases List.mem_singleton.1 new
      exact .inr joins
  generalize known : s.taken = taken at phase
  cases phase with
  | idle idle =>
    have begun := idle.begin (first + UInt8.ofNat z.2) z.1.1.toNat
    have pushed : c.push (z.fragment first) = _ := idle.push fits
    have single : carried [z] = z.1.2 := by simp [carried]
    rw [pushed]
    rcases Nat.lt_or_eq_of_le fits.inside with short | full
    · obtain ⟨answer, state⟩ := begun.accept_more z.1.2 (by simpa using short)
      rw [answer]
      refine ⟨?_, fun q mem => .inl mem⟩
      change Phase _ _ _ _ (s.taken ++ [z.fragment first])
      rw [known]
      rw [succ_place] at state
      exact .gathering zs [z] rfl (by simp) (by rwa [here]) _ z.2 (.single z) (by rwa [single])
        (by rwa [single])
    · obtain ⟨answer, done⟩ := begun.accept_last z.1.2 (by simpa using full)
      rw [answer]
      refine ⟨.idle done, completes ⟨zs, [z], _, z.2, rfl, by rw [known]; rfl, by rwa [here],
        .single z, by simp, by simp [single], by simpa using full⟩⟩
  | gathering early seg split some between total start segment short state =>
    have low : start + seg.length ≤ z.2 :=
      segment.le some fun y mem => later y (by rw [split]; exact List.mem_append_right _ mem)
    have whole : zs ++ [z] = early ++ (seg ++ [z]) := by rw [split, List.append_assoc]
    have more : s.taken ++ [z.fragment first] = (seg ++ [z]).map (Placed.fragment first) := by
      rw [known, List.map_append]
      rfl
    rcases Nat.lt_or_eq_of_le low with late | next
    · obtain ⟨e, refused⟩ := state.push_late fits late few
      rw [refused]
      exact ⟨.stuck total _ _ state ⟨z, newest, low⟩, fun q mem => .inl mem⟩
    · by_cases same : z.1.1.toNat = total
      · subst same
        have pushed : c.push (z.fragment first) = _ := state.push fits
        rw [pushed]
        rcases Nat.lt_trichotomy ((carried seg).length + z.1.2.length) z.1.1.toNat with
          less | full | excess
        · obtain ⟨answer, gathers⟩ := state.accept_more z.1.2 less
          rw [next] at answer gathers
          rw [answer]
          refine ⟨?_, fun q mem => .inl mem⟩
          change Phase _ _ _ _ (s.taken ++ [z.fragment first])
          rw [more]
          refine .gathering early (seg ++ [z]) whole (by simp) between _ start
            (segment.snoc next.symm rfl) ?_ ?_
          · rw [carried_snoc, List.length_append]
            exact less
          · rw [carried_snoc, List.length_append, ← Nat.add_assoc, next, List.length_singleton]
            rwa [succ_place] at gathers
        · obtain ⟨answer, done⟩ := state.accept_last z.1.2 full
          rw [next] at answer done
          rw [answer]
          refine ⟨.idle done, completes ⟨early, seg ++ [z], _, start, whole, more, between,
            segment.snoc next.symm rfl, by simp, carried_snoc _ _, ?_⟩⟩
          rw [List.length_append]
          exact full
        · obtain ⟨e, refused⟩ := state.accept_stuck (first + UInt8.ofNat z.2) (.inr excess)
          rw [refused]
          exact ⟨.stuck _ _ _ state ⟨z, newest, low⟩, fun q mem => .inl mem⟩
      · have refused : c.push (z.fragment first) = _ := state.push_other fits fun eq => same eq.symm
        rw [refused]
        exact ⟨.stuck total _ _ state ⟨z, newest, low⟩, fun q mem => .inl mem⟩
  | stuck total got due state past =>
    obtain ⟨y, mem, le⟩ := past
    have late : due < z.2 := Nat.lt_of_le_of_lt le (later y mem)
    obtain ⟨e, refused⟩ := state.push_late fits late few
    rw [refused]
    exact ⟨.stuck total got due state ⟨z, newest, Nat.le_of_lt late⟩, fun q mem => .inl mem⟩

/-- Along a delivery every returned message was put together from a segment. -/
theorem deliver_spec (idle : receiver.Idle) (fits : ∀ z ∈ zs, z.1.Fits ∧ z.2 < 256)
    (increasing : zs.Pairwise fun y z => y.2 < z.2) :
    Phase first receiver zs (receiver.pushAll (zs.map (Placed.fragment first))).2
        (receiver.account (zs.map (Placed.fragment first))).taken
      ∧ ∀ q ∈ (receiver.account (zs.map (Placed.fragment first))).returned,
        ∃ before after, zs = before ++ after ∧ Joins first receiver before q.1 q.2 := by
  induction zs using List.reverseRecOn with
  | nil => exact ⟨.idle idle, fun m mem => by cases mem⟩
  | append_singleton zs z ih =>
    obtain ⟨early, _, ordered⟩ := List.pairwise_append.1 increasing
    obtain ⟨phase, returned⟩ := ih (fun y mem => fits y (List.mem_append_left _ mem)) early
    obtain ⟨fit, few⟩ := fits z (by simp)
    obtain ⟨next, joins⟩ := phase.step rfl fit (fun y mem => ordered y mem z (by simp)) few
    rw [List.map_append, pushAll_append, List.map_singleton, account_snoc]
    refine ⟨next, fun q mem => ?_⟩
    rcases joins q mem with old | new
    · obtain ⟨before, after, split, joined⟩ := returned q old
      exact ⟨before, after ++ [z], by rw [split, List.append_assoc], joined⟩
    · exact ⟨zs ++ [z], [], (List.append_nil _).symm, new⟩

end Steps

section Cuts

theorem carried_eq (zs : List Placed) : carried zs = ((zs.map Prod.fst).map Prod.snd).flatten := by
  rw [carried, List.map_map]
  rfl

/-- A segment of the placed stream is a cut of the stream. -/
theorem Segment.cut {total start : Nat} {seg : List Placed} (h : Segment total start seg)
    (inside : ∀ z ∈ seg, z ∈ ps.zipIdx) :
    seg.map Prod.fst = (ps.drop start).take seg.length ∧ seg = (seg.map Prod.fst).zipIdx start := by
  have place : ∀ {j z}, seg[j]? = some z → z.2 = start + j := by
    intro j z found
    have named : (seg.map Prod.snd)[j]? = some z.2 := by rw [List.getElem?_map, found]; rfl
    rw [h.places] at named
    obtain ⟨bound, eq⟩ := List.getElem?_eq_some_iff.1 named
    rw [List.getElem_range'] at eq
    omega
  constructor
  · apply List.ext_getElem?
    intro j
    rw [List.getElem?_map, List.getElem?_take]
    cases found : seg[j]? with
    | none => rw [if_neg (Nat.not_lt.2 (List.getElem?_eq_none_iff.1 found))]; rfl
    | some z =>
      obtain ⟨bound, _⟩ := List.getElem?_eq_some_iff.1 found
      have member := inside z (List.mem_of_getElem? found)
      rw [List.mem_zipIdx_iff_getElem?] at member
      rw [if_pos bound, List.getElem?_drop, ← place found, member]
      rfl
  · apply List.ext_getElem?
    intro j
    rw [List.getElem?_zipIdx, List.getElem?_map]
    cases found : seg[j]? with
    | none => rfl
    | some z =>
      rw [Option.map_some, Option.map_some, ← place found]

/-- The bytes that pieces carry. -/
def payloads (ps : List Piece) : Bytes := (ps.map Prod.snd).flatten

theorem payloads_append (ps qs : List Piece) : payloads (ps ++ qs) = payloads ps ++ payloads qs := by
  rw [payloads, List.map_append, List.flatten_append]
  rfl

theorem payloads_take (message : Bytes) (k : Nat) :
    payloads ((pieces message).take k) = message.take (k * maxApduPayload) := by
  rw [payloads, List.map_take, payloads_pieces, flatten_take_chunks room]

theorem payloads_drop (message : Bytes) (k : Nat) :
    payloads ((pieces message).drop k) = message.drop (k * maxApduPayload) := by
  rw [payloads, List.map_drop, payloads_pieces, flatten_drop_chunks room]

theorem payloads_eq_nil (fits : ∀ piece ∈ ps, piece.Fits) (none : payloads ps = []) : ps = [] := by
  cases ps with
  | nil => rfl
  | cons piece ps =>
    have empty : piece.2 = [] := (List.append_eq_nil_iff.1 none).1
    have positive := (fits piece List.mem_cons_self).positive
    rw [empty] at positive
    exact absurd positive (Nat.lt_irrefl 0)

theorem lt_length_pieces : k < (pieces message).length ↔ k * maxApduPayload < message.length := by
  rw [pieces, List.length_map, length_chunks, chunk_lt room]

theorem total_of_mem (h : Sendable message) {piece : Piece} (mem : piece ∈ pieces message) :
    piece.1.toNat = message.length := by
  obtain ⟨chunk, _, rfl⟩ := List.mem_map.1 mem
  exact h.total

/-- The last pieces of a message and as many first pieces of the next, equally long one. -/
structure Across (messages : List Bytes) (before : List Bytes) (a b : Bytes) (k : Nat) : Prop where
  neighbours : ∃ after, messages = before ++ a :: b :: after
  same : a.length = b.length
  positive : 0 < k
  inside : k < (pieces a).length

private theorem append_take {α : Type} {l m whole : List α} (h : whole = l ++ m) :
    l = whole.take l.length ∧ m = whole.drop l.length := by
  rw [h]
  simp

/-- A cut that starts with the piece `k` of a message: it is all its pieces, or it takes as many
pieces of the next one. -/
private theorem cut_from (first : Sendable message) (rest : ∀ m ∈ messages, Sendable m)
    {cut right : List Piece} {k total : Nat} (inside : k < (pieces message).length)
    (split : cut ++ right = (pieces message).drop k ++ stream messages) (some : cut ≠ [])
    (totals : ∀ piece ∈ cut, piece.1.toNat = total) (full : (payloads cut).length = total) :
    (k = 0 ∧ cut = pieces message) ∨ ∃ b after, messages = b :: after ∧ message.length = b.length
      ∧ 0 < k ∧ cut = (pieces message).drop k ++ (pieces b).take k := by
  have bytes : k * maxApduPayload < message.length := lt_length_pieces.1 inside
  have size : total = message.length := by
    obtain ⟨piece, others, rfl⟩ := List.exists_cons_of_ne_nil some
    obtain ⟨p, ps, eq⟩ := List.exists_cons_of_ne_nil (List.drop_eq_nil_iff.not.2 (Nat.not_le.2 inside))
    rw [eq] at split
    obtain ⟨rfl, _⟩ := List.cons.inj split
    have member : piece ∈ pieces message := List.mem_of_mem_drop (eq ▸ List.mem_cons_self)
    rw [← totals piece List.mem_cons_self, total_of_mem first member]
  have tail : (payloads ((pieces message).drop k)).length = message.length - k * maxApduPayload := by
    rw [payloads_drop, List.length_drop]
  rcases List.append_eq_append_iff.1 split with ⟨remaining, eq, _⟩ | ⟨more, eq, split'⟩
  · -- the cut ends within the message, so it is all of it
    left
    have lengths := tail
    rw [eq, payloads_append, List.length_append, full, size] at lengths
    have zero : k = 0 := by
      rcases Nat.eq_zero_or_pos k with zero | positive
      · exact zero
      · have := Nat.mul_pos positive room
        omega
    rw [zero, List.drop_zero] at eq
    have none : remaining = [] := by
      refine payloads_eq_nil (fun piece mem => fits_of_mem_pieces first ?_)
        (List.eq_nil_of_length_eq_zero (by omega))
      rw [eq]
      exact List.mem_append_right _ mem
    exact ⟨zero, by rw [eq, none, List.append_nil]⟩
  · have lengths := full
    rw [eq, payloads_append, List.length_append, tail, size] at lengths
    have taken : (payloads more).length = k * maxApduPayload := by omega
    rcases Nat.eq_zero_or_pos k with rfl | positive
    · left
      have none : more = [] := by
        refine payloads_eq_nil (fun piece mem => fits_of_mem_stream rest ?_)
          (List.eq_nil_of_length_eq_zero (by simpa using taken))
        rw [split']
        exact List.mem_append_left _ mem
      exact ⟨rfl, by rw [eq, none, List.append_nil, List.drop_zero]⟩
    · right
      have some' : more ≠ [] := by
        rintro rfl
        have := Nat.mul_pos positive room
        rw [← taken] at this
        exact Nat.lt_irrefl 0 this
      cases messages with
      | nil => exact absurd (List.append_eq_nil_iff.1 split'.symm).1 some'
      | cons b after =>
        obtain ⟨next, _⟩ := List.forall_mem_cons.1 rest
        change pieces b ++ stream after = more ++ right at split'
        have same : message.length = b.length := by
          obtain ⟨piece, others, rfl⟩ := List.exists_cons_of_ne_nil some'
          obtain ⟨p, ps, eq'⟩ := List.exists_cons_of_ne_nil next.pieces_ne
          rw [eq'] at split'
          obtain ⟨rfl, _⟩ := List.cons.inj split'
          have member : p ∈ pieces b := eq' ▸ List.mem_cons_self
          rw [← size, ← totals p (by rw [eq]; simp), total_of_mem next member]
        refine ⟨b, after, rfl, same, positive, ?_⟩
        rcases List.append_eq_append_iff.1 split' with ⟨beyond, eq', _⟩ | ⟨remaining, eq', _⟩
        · have all : payloads (pieces b) = b := by
            rw [payloads, payloads_pieces, flatten_chunks room]
          rw [eq', payloads_append, List.length_append, all] at taken
          omega
        · obtain ⟨head, _⟩ := append_take eq'
          rw [head, payloads_take, List.length_take] at taken
          have count : more.length = k := by
            refine Nat.eq_of_mul_eq_mul_right room ?_
            omega
          rw [eq, head, count]

/-- A cut with one announced length, and that many bytes, is a message or goes across two. -/
theorem stream_cut (h : ∀ m ∈ messages, Sendable m) {left cut right : List Piece} {total : Nat}
    (split : stream messages = left ++ (cut ++ right)) (some : cut ≠ [])
    (totals : ∀ piece ∈ cut, piece.1.toNat = total) (full : (payloads cut).length = total) :
    (∃ before message after, messages = before ++ message :: after ∧ left = stream before
      ∧ cut = pieces message) ∨ ∃ before a b k, Across messages before a b k
      ∧ left = stream before ++ (pieces a).take k ∧ cut = (pieces a).drop k ++ (pieces b).take k := by
  induction messages generalizing left with
  | nil =>
    have none : left ++ (cut ++ right) = [] := split.symm
    exact absurd (List.append_eq_nil_iff.1 (List.append_eq_nil_iff.1 none).2).1 some
  | cons message messages ih =>
    obtain ⟨first, rest⟩ := List.forall_mem_cons.1 h
    change pieces message ++ stream messages = left ++ (cut ++ right) at split
    by_cases behind : (pieces message).length ≤ left.length
    · obtain ⟨left', rfl⟩ : ∃ left', left = pieces message ++ left' := by
        rcases List.append_eq_append_iff.1 split with ⟨left', eq, _⟩ | ⟨tail, eq, _⟩
        · exact ⟨left', eq⟩
        · have none : tail = [] := by
            refine List.eq_nil_of_length_eq_zero ?_
            rw [eq, List.length_append] at behind
            omega
          exact ⟨[], by rw [eq, none, List.append_nil, List.append_nil]⟩
      rw [List.append_assoc] at split
      rcases ih rest (List.append_cancel_left split) with
        ⟨before, m, after, rfl, rfl, whole⟩ | ⟨before, a, b, k, across, eq', cutEq⟩
      · exact .inl ⟨message :: before, m, after, rfl, rfl, whole⟩
      · obtain ⟨after, neighbours⟩ := across.neighbours
        refine .inr ⟨message :: before, a, b, k, ⟨⟨after, by rw [neighbours]; rfl⟩, across.same,
          across.positive, across.inside⟩, ?_, cutEq⟩
        rw [eq', ← List.append_assoc]
        rfl
    · have inside : left.length < (pieces message).length := Nat.not_le.1 behind
      rcases List.append_eq_append_iff.1 split with ⟨left', eq, _⟩ | ⟨tail, eq, split'⟩
      · rw [eq, List.length_append] at inside
        omega
      · obtain ⟨head, last⟩ := append_take eq
        rw [last] at split'
        rcases cut_from first rest inside split' some totals full with
          ⟨none, whole⟩ | ⟨b, after, rfl, same, positive, cutEq⟩
        · exact .inl ⟨[], message, messages, rfl, List.eq_nil_of_length_eq_zero none, whole⟩
        · exact .inr ⟨[], message, b, left.length, ⟨⟨after, rfl⟩, same, positive, inside⟩, head, cutEq⟩

end Cuts

section Numbers

theorem drop_number (sequence : UInt8) (inside : k ≤ ps.length) :
    (number sequence ps).drop k = number (sequence + UInt8.ofNat k) (ps.drop k) := by
  have split := number_append sequence (ps.take k) (ps.drop k)
  rw [List.take_append_drop, List.length_take, Nat.min_eq_left inside] at split
  rw [split, List.drop_left' (by rw [length_number, List.length_take, Nat.min_eq_left inside])]

theorem take_number (sequence : UInt8) (inside : k ≤ ps.length) :
    (number sequence ps).take k = number sequence (ps.take k) := by
  have split := number_append sequence (ps.take k) (ps.drop k)
  rw [List.take_append_drop] at split
  rw [split, List.take_left' (by rw [length_number, List.length_take, Nat.min_eq_left inside])]

theorem groups_append (sequence : UInt8) (before after : List Bytes) :
    groups sequence (before ++ after)
      = groups sequence before ++ groups (sequence + UInt8.ofNat (stream before).length) after := by
  induction before generalizing sequence with
  | nil => simp [groups, stream]
  | cons message before ih =>
    rw [List.cons_append, groups, ih, groups, List.cons_append]
    simp only [stream, List.flatMap_cons, List.length_append, UInt8.ofNat_add, UInt8.add_assoc]

theorem group_at (sequence : UInt8) (before : List Bytes) (message : Bytes) (after : List Bytes) :
    (groups sequence (before ++ message :: after))[before.length]?
      = some (number (sequence + UInt8.ofNat (stream before).length) (pieces message)) := by
  rw [groups_append, List.getElem?_append_right (by rw [length_groups]), length_groups, Nat.sub_self]
  rfl

/-- Up to 256 fragments are pairwise different. -/
theorem nodup_number (sequence : UInt8) (few : ps.length ≤ 256) : (number sequence ps).Nodup := by
  have numbered := number_eq_map sequence ps 0
  rw [show sequence + UInt8.ofNat 0 = sequence by simp] at numbered
  rw [numbered]
  refine List.Nodup.map_on (fun y hy z hz same => ?_) (List.Nodup.of_map Prod.snd ?_)
  · have placeY := List.snd_lt_add_of_mem_zipIdx hy
    have placeZ := List.snd_lt_add_of_mem_zipIdx hz
    have place : y.2 = z.2 := place_injective (by omega) (by omega) (List.cons.inj same).1
    rw [List.mem_zipIdx_iff_getElem?] at hy hz
    rw [place, hz] at hy
    exact Prod.ext (Option.some.inj hy).symm place
  · rw [List.zipIdx_map_snd]
    exact List.nodup_range'

/-- A fragment belongs to one group only. -/
theorem group_unique {gs : List (List Bytes)} (nodup : gs.flatten.Nodup) {i j : Nat}
    {f g : List Bytes} (hf : gs[i]? = some f) (hg : gs[j]? = some g) {fragment : Bytes}
    (inF : fragment ∈ f) (inG : fragment ∈ g) : i = j := by
  have disjoint := List.pairwise_iff_getElem.1 (List.nodup_flatten.1 nodup).2
  obtain ⟨hi, rfl⟩ := List.getElem?_eq_some_iff.1 hf
  obtain ⟨hj, rfl⟩ := List.getElem?_eq_some_iff.1 hg
  rcases Nat.lt_trichotomy i j with less | same | more
  · exact absurd inG (disjoint i j hi hj less inF)
  · exact same
  · exact absurd inF (disjoint j i hj hi more inG)

end Numbers

/-- The end of one message and the beginning of the next, equally long one reach an idle receiver
without a gap. -/
def Splices (receiver : IsoDepCodec) (messages : List Bytes) (groups : List (List Bytes))
    (delivered : List Bytes) (joined : Bytes) : Prop :=
  ∃ i k a b fa fb pre post, messages[i]? = some a ∧ messages[i + 1]? = some b
    ∧ a.length = b.length ∧ groups[i]? = some fa ∧ groups[i + 1]? = some fb ∧ 0 < k ∧ k < fa.length
    ∧ delivered = pre ++ (fa.drop k ++ fb.take k) ++ post ∧ (receiver.pushAll pre).2.Idle
    ∧ joined = a.drop (k * maxApduPayload) ++ b.take (k * maxApduPayload)

section Neighbours
variable {messages before : List Bytes} {a b : Bytes} {k : Nat}

theorem Across.shared (h : Across messages before a b k) : k < (pieces b).length :=
  lt_length_pieces.2 (h.same ▸ lt_length_pieces.1 h.inside)

theorem Across.groups (h : Across messages before a b k) (sequence : UInt8) :
    ∃ fa fb, (IsoDepCodec.groups sequence messages)[before.length]? = some fa
      ∧ (IsoDepCodec.groups sequence messages)[before.length + 1]? = some fb
      ∧ fa.length = (pieces a).length
      ∧ fa.drop k ++ fb.take k = number (sequence + UInt8.ofNat ((stream before).length + k))
        ((pieces a).drop k ++ (pieces b).take k) := by
  obtain ⟨after, rfl⟩ := h.neighbours
  have second := group_at sequence (before ++ [a]) b after
  have length : (stream (before ++ [a])).length = (stream before).length + (pieces a).length := by
    simp [stream]
  rw [length, List.length_append, List.append_assoc] at second
  refine ⟨_, _, group_at sequence before a (b :: after), second, length_number _ _, ?_⟩
  · rw [drop_number _ (Nat.le_of_lt h.inside), take_number _ (Nat.le_of_lt h.shared), number_append,
      List.length_drop]
    congr 2
    · rw [UInt8.ofNat_add, UInt8.add_assoc]
    · rw [UInt8.add_assoc, ← UInt8.ofNat_add]
      congr 2
      have := h.inside
      omega

theorem across_of_groups (ha : messages[i]? = some a) (hb : messages[i + 1]? = some b)
    (same : a.length = b.length) (positive : 0 < k) (inside : k < (pieces a).length) :
    ∃ before, before.length = i ∧ Across messages before a b k := by
  obtain ⟨bound, atA⟩ := List.getElem?_eq_some_iff.1 ha
  obtain ⟨bound', atB⟩ := List.getElem?_eq_some_iff.1 hb
  refine ⟨messages.take i, by rw [List.length_take]; omega, ⟨messages.drop (i + 2), ?_⟩, same, positive,
    inside⟩
  rw [← atA, ← atB, List.getElem_cons_drop, List.getElem_cons_drop, List.take_append_drop]

/-- The bytes that go across two messages fill the announced length. -/
theorem Across.payloads (h : Across messages before a b k) :
    OpenLock.payloads ((pieces a).drop k ++ (pieces b).take k)
      = a.drop (k * maxApduPayload) ++ b.take (k * maxApduPayload)
    ∧ (a.drop (k * maxApduPayload) ++ b.take (k * maxApduPayload)).length = a.length := by
  refine ⟨by rw [payloads_append, payloads_drop, payloads_take], ?_⟩
  have inside := lt_length_pieces.1 h.inside
  have same := h.same
  rw [List.length_append, List.length_drop, List.length_take]
  omega

end Neighbours

theorem length_group (sent : messages[i]? = some message)
    (found : (groups sequence messages)[i]? = some group) :
    group.length = (pieces message).length := by
  induction messages generalizing sequence i with
  | nil => cases sent
  | cons m messages ih =>
    cases i with
    | zero =>
      cases sent
      cases found
      exact length_number _ _
    | succ i => exact ih sent found

/-- What is spliced is returned, and put together from both groups. -/
theorem Splices.returned {messages delivered : List Bytes} {joined : Bytes}
    (sendable : ∀ m ∈ messages, Sendable m)
    (h : Splices c messages (groups sequence messages) delivered joined) :
    ∃ (i : Nat) (fa fb fs : List Bytes), (groups sequence messages)[i]? = some fa
      ∧ (groups sequence messages)[i + 1]? = some fb ∧ (∃ x ∈ fa, x ∈ fs) ∧ (∃ y ∈ fb, y ∈ fs)
      ∧ (fs, joined) ∈ (c.account delivered).returned := by
  obtain ⟨i, k, a, b, fa, fb, pre, post, ha, hb, same, hfa, hfb, positive, inside, rfl, idle, rfl⟩ := h
  obtain ⟨before, rfl, across⟩ :=
    across_of_groups ha hb same positive (length_group ha hfa ▸ inside)
  obtain ⟨fa', fb', hfa', hfb', _, numbered⟩ := across.groups sequence
  obtain rfl := Option.some.inj (hfa.symm.trans hfa')
  obtain rfl := Option.some.inj (hfb.symm.trans hfb')
  obtain ⟨bytes, full⟩ := across.payloads
  have sendA := sendable a (List.mem_of_getElem? ha)
  have sendB := sendable b (List.mem_of_getElem? hb)
  have some : (pieces a).drop k ++ (pieces b).take k ≠ [] := by
    intro none
    have := List.drop_eq_nil_iff.1 (List.append_eq_nil_iff.1 none).1
    have := across.inside
    omega
  have fits : ∀ piece ∈ (pieces a).drop k ++ (pieces b).take k,
      piece.Fits ∧ piece.1.toNat = a.length := by
    intro piece mem
    rcases List.mem_append.1 mem with old | new
    · have member := List.mem_of_mem_drop old
      exact ⟨fits_of_mem_pieces sendA member, total_of_mem sendA member⟩
    · have member := List.mem_of_mem_take new
      exact ⟨fits_of_mem_pieces sendB member, by rw [total_of_mem sendB member, same]⟩
  obtain ⟨received, _⟩ := idle.pushAll some fits (by rw [← full, ← bytes]; rfl)
    (sequence + UInt8.ofNat ((stream before).length + k))
  rw [show (List.map Prod.snd _).flatten = _ from bytes] at received
  have count := congrArg List.length numbered
  rw [length_number] at count
  rw [← numbered, ← count] at received
  obtain ⟨x, old⟩ := List.exists_mem_of_ne_nil (fa.drop k) (by simpa using inside)
  obtain ⟨y, new⟩ := List.exists_mem_of_ne_nil (fb.take k) fun none => by
    have shared := across.shared
    have lengths := congrArg List.length none
    rw [List.length_take, length_group hb hfb, List.length_nil] at lengths
    omega
  refine ⟨_, fa, fb, (c.account pre).taken ++ (fa.drop k ++ fb.take k), hfa, hfb,
    ⟨x, List.mem_of_mem_drop old, ?_⟩, ⟨y, List.mem_of_mem_take new, ?_⟩, ?_⟩
  · exact List.mem_append_right _ (List.mem_append_left _ old)
  · exact List.mem_append_right _ (List.mem_append_right _ new)
  · rw [account_append, account_append]
    exact Account.kept (account_group (List.append_ne_nil_of_left_ne_nil (List.ne_nil_of_mem old) _) received)

/-- The message `m` was sent as the fragments `fs`. -/
def SentAs (messages : List Bytes) (groups : List (List Bytes)) (fs : List Bytes) (m : Bytes) : Prop :=
  ∃ i : Nat, messages[i]? = some m ∧ groups[i]? = some fs

/-- What is put together from a segment of a stream was sent so, or it is spliced. -/
theorem Joins.sent_or_spliced {messages fs : List Bytes} {zs post : List Placed} {m : Bytes}
    (sendable : ∀ m ∈ messages, Sendable m) (inside : ∀ z ∈ zs, z ∈ (stream messages).zipIdx)
    (h : Joins sequence c zs fs m) :
    SentAs messages (groups sequence messages) fs m ∨ Splices c messages (groups sequence messages)
      ((zs ++ post).map (Placed.fragment sequence)) m := by
  obtain ⟨early, seg, total, start, rfl, rfl, idle, segment, some, bytes, full⟩ := h
  obtain ⟨cut, placed⟩ := segment.cut fun z mem => inside z (List.mem_append_right _ mem)
  have split : stream messages = (stream messages).take start ++ (seg.map Prod.fst
      ++ (stream messages).drop (start + seg.length)) := by
    rw [cut, ← List.drop_drop, List.take_append_drop, List.take_append_drop]
  have here : ((stream messages).take start).length = start := by
    refine List.length_take_of_le (Nat.le_of_lt (Nat.not_le.1 fun beyond => some ?_))
    rw [List.drop_eq_nil_of_le beyond, List.take_nil] at cut
    exact List.map_eq_nil_iff.1 cut
  have totals : ∀ piece ∈ seg.map Prod.fst, piece.1.toNat = total := by
    intro piece mem
    obtain ⟨z, member, rfl⟩ := List.mem_map.1 mem
    exact segment.totals z member
  have pushed : seg.map (Placed.fragment sequence)
      = number (sequence + UInt8.ofNat start) (seg.map Prod.fst) := by
    rw [number_eq_map, ← placed]
  replace bytes : payloads (seg.map Prod.fst) = m := by rw [← bytes, carried_eq]; rfl
  rcases stream_cut sendable split (by simpa using some) totals (by rw [bytes, full]) with
    ⟨before, message, after, rfl, left, eq⟩ | ⟨before, a, b, k, across, left, eq⟩
  · left
    rw [left] at here
    have whole : message = m := by
      rw [← bytes, eq, payloads, payloads_pieces, flatten_chunks room]
    refine ⟨before.length, by simp [whole], ?_⟩
    rw [group_at, pushed, here, eq]
  · right
    obtain ⟨fa, fb, hfa, hfb, counted, numbered⟩ := across.groups sequence
    obtain ⟨after, neighbours⟩ := across.neighbours
    rw [left, List.length_append, List.length_take, Nat.min_eq_left (Nat.le_of_lt across.inside)]
      at here
    refine ⟨before.length, k, a, b, fa, fb, early.map (Placed.fragment sequence),
      post.map (Placed.fragment sequence), ?_, ?_, across.same, hfa, hfb, across.positive,
      counted ▸ across.inside, ?_, idle, ?_⟩
    · simp [neighbours]
    · simp [neighbours]
    · rw [numbered, here, ← eq, ← pushed, List.map_append, List.map_append]
    · rw [← bytes, eq, across.payloads.1]

/-- Whatever is lost, each returned message is one that was sent, put together from its own
fragments, exactly when no two messages are spliced. -/
theorem lost_apdus_harmless_iff (sender receiver : IsoDepCodec) (messages : List Bytes)
    (groups : List (List Bytes)) (encoded : (sender.encodeAll messages).1 = .ok groups)
    (few : groups.flatten.length ≤ 256) (delivered : List Bytes)
    (lost : delivered.Sublist groups.flatten) :
    ((∀ m, .ok (some m) ∈ (receiver.reset.pushAll delivered).1 → m ∈ messages)
      ∧ ∀ fs m, (fs, m) ∈ (receiver.reset.account delivered).returned → SentAs messages groups fs m)
      ↔ ∀ joined, ¬ Splices receiver.reset messages groups delivered joined := by
  have sendable := sendable_of_encodeAll encoded
  obtain rfl : groups = IsoDepCodec.groups sender.sequence messages := by
    rw [encodeAll_eq sendable] at encoded
    exact (Except.ok.inj encoded).symm
  have flat := flatten_groups sender.sequence messages
  rw [flat, length_number] at few
  constructor
  · intro only joined splices
    obtain ⟨i, fa, fb, fs, hfa, hfb, ⟨x, inA, xs⟩, ⟨y, inB, ys⟩, returned⟩ := splices.returned sendable
    obtain ⟨j, _, group⟩ := only.2 fs joined returned
    -- the group of the returned message holds a fragment of each neighbour
    have nodup : (IsoDepCodec.groups sender.sequence messages).flatten.Nodup := by
      rw [flat]
      exact nodup_number _ few
    have first := group_unique nodup hfa group inA xs
    have second := group_unique nodup hfb group inB ys
    omega
  · intro condition
    have sent : ∀ fs m, (fs, m) ∈ (receiver.reset.account delivered).returned →
        SentAs messages (IsoDepCodec.groups sender.sequence messages) fs m := by
      intro fs m returned
      have numbered := number_eq_map sender.sequence (stream messages) 0
      rw [show sender.sequence + UInt8.ofNat 0 = sender.sequence by simp] at numbered
      rw [flat, numbered] at lost
      obtain ⟨zs, sub, rfl⟩ := List.sublist_map_iff.1 lost
      have fits : ∀ z ∈ zs, z.1.Fits ∧ z.2 < 256 := by
        intro z mem
        have found := List.mem_zipIdx_iff_getElem?.1 (sub.subset mem)
        obtain ⟨bound, _⟩ := List.getElem?_eq_some_iff.1 found
        exact ⟨fits_of_mem_stream sendable (List.mem_of_getElem? found), Nat.lt_of_lt_of_le bound few⟩
      have increasing : zs.Pairwise fun y z => y.2 < z.2 := by
        refine List.Pairwise.sublist sub ?_
        rw [← List.pairwise_map (f := Prod.snd) (R := (· < ·)), List.zipIdx_map_snd]
        exact List.pairwise_lt_range'
      obtain ⟨before, post, rfl, joins⟩ :=
        (deliver_spec (Idle.reset receiver) fits increasing).2 _ returned
      rcases joins.sent_or_spliced sendable fun z mem => sub.subset (List.mem_append_left _ mem) with
        sent | spliced
      · exact sent
      · exact absurd spliced (condition m)
    refine ⟨fun m returned => ?_, sent⟩
    obtain ⟨fs, known⟩ := account_complete returned
    obtain ⟨i, found, _⟩ := sent fs m known
    exact List.mem_of_getElem? found

/-- Two messages of 241 bytes. -/
def twins : List Bytes := [List.replicate 241 1, List.replicate 241 2]

def twinGroups : List (List Bytes) :=
  [[[0, 0, 241] ++ List.replicate 240 1, [1, 0, 241, 1]],
    [[2, 0, 241] ++ List.replicate 240 2, [3, 0, 241, 2]]]

/-- The first of four fragments is lost: the end of the first message is returned together with
the beginning of the second. -/
theorem lost_first_splices : (IsoDepCodec.default.encodeAll twins).1 = .ok twinGroups
    ∧ (twinGroups.flatten.tail).Sublist twinGroups.flatten
    ∧ .ok (some (1 :: List.replicate 240 2)) ∈ (IsoDepCodec.default.reset.pushAll twinGroups.flatten.tail).1
    ∧ (1 :: List.replicate 240 2) ∉ twins := by
  refine ⟨?_, List.tail_sublist _, ?_, ?_⟩ <;> decide +kernel

/-- The first message is lost altogether: the second is returned, and nothing is spliced. -/
theorem lost_message_harmless : (IsoDepCodec.default.encodeAll twins).1 = .ok twinGroups
    ∧ twinGroups.flatten.length ≤ 256 ∧ twinGroups.tail.flatten.Sublist twinGroups.flatten
    ∧ (IsoDepCodec.default.reset.pushAll twinGroups.tail.flatten).1
      = [.ok none, .ok (some (List.replicate 241 2))]
    ∧ ∀ joined, ¬ Splices IsoDepCodec.default.reset twins twinGroups twinGroups.tail.flatten joined := by
  have answers : (IsoDepCodec.default.reset.pushAll twinGroups.tail.flatten).1
      = [.ok none, .ok (some (List.replicate 241 2))] := by decide +kernel
  have account : (IsoDepCodec.default.reset.account twinGroups.tail.flatten).returned
      = [(twinGroups.tail.flatten, List.replicate 241 2)] := by decide +kernel
  refine ⟨by decide +kernel, by decide, by decide +kernel, answers, ?_⟩
  refine (lost_apdus_harmless_iff .default .default twins twinGroups (by decide +kernel) (by decide) _
    (by decide +kernel)).1 ⟨fun m returned => ?_, fun fs m returned => ⟨1, ?_⟩⟩
  · rw [answers] at returned
    rcases List.mem_cons.1 returned with none | last
    · cases none
    · cases List.mem_singleton.1 last
      exact List.mem_cons_of_mem _ (List.mem_singleton_self _)
  · rw [account] at returned
    cases List.mem_singleton.1 returned
    exact ⟨rfl, rfl⟩

end Lossy
end OpenLock
