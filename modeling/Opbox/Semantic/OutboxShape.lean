import Opbox.Foundation.Machine
import Opbox.Semantic.Outbox

/-!
# The shape of the outbox table

Over every run of local mutations, reservations, trims, releases and restarts the ids in the
`outbox` table are one interval that ends below `next_outbox_id`, and the reserved rows are the
ones below a boundary inside it.  `Outbox.Spans first middle` says so; every operation moves the
two bounds in its own way, and the reservation of a batch succeeds because of it.
-/

namespace Opbox

namespace Outbox

variable {M : Type}

/-- The ids in the table are those from `first` on that have been allocated, and the reserved rows
are the ones below `middle`. -/
structure Spans (o : Outbox M) (first middle : OutboxId) : Prop where
  /-- The boundary is not before the first id. -/
  first_le : first ≤ middle
  /-- The boundary is not past the allocated ids. -/
  le_next : middle ≤ o.nextOutboxId
  /-- The counter fits its column. -/
  next_le : o.nextOutboxId ≤ i64Max
  /-- The ids in the table. -/
  mem_iff : ∀ id, (∃ row ∈ o.rows, row.outboxId = id) ↔ first ≤ id ∧ id < o.nextOutboxId
  /-- The reserved rows. -/
  inflight_iff : ∀ row ∈ o.rows, row.inflight = true ↔ row.outboxId < middle

variable {o o' : Outbox M} {first middle : OutboxId}

theorem spans_empty : (empty : Outbox M).Spans 0 0 where
  first_le := le_rfl
  le_next := le_rfl
  next_le := Nat.zero_le _
  mem_iff id := by
    constructor
    · rintro ⟨row, hrow, -⟩
      exact absurd hrow Table.not_mem_empty
    · rintro ⟨-, hlt⟩
      exact absurd hlt (Nat.not_lt_zero id)
  inflight_iff row hrow := absurd hrow Table.not_mem_empty

/-! ## Local mutations -/

/-- The counter never leaves its column. -/
theorem nextOutboxId_le_of_push {messages : List M} (hnext : o.nextOutboxId ≤ i64Max)
    (h : o.pushOutboxMessages messages = .ok o') : o'.nextOutboxId ≤ i64Max := by
  rw [(pushOutboxMessages_spec h).1]
  unfold pushOutboxMessages reserveOutboxIds at h
  split_ifs at h with hz hmax
  · lia
  · exact hmax
  · cases h

/-- New rows extend the interval and are not reserved. -/
theorem Spans.push {messages : List M} (hs : o.Spans first middle)
    (h : o.pushOutboxMessages messages = .ok o') : o'.Spans first middle := by
  have hmax := nextOutboxId_le_of_push hs.next_le h
  obtain ⟨hnext, hrows⟩ := pushOutboxMessages_spec h
  have hfirst := hs.first_le
  have hmiddle := hs.le_next
  refine ⟨hfirst, by lia, hmax, fun id => ⟨?_, ?_⟩, fun row hrow => ?_⟩
  · rintro ⟨row, hrow, rfl⟩
    rcases (hrows row).mp hrow with hrow | ⟨i, hi, rfl⟩
    · have hid := (hs.mem_iff row.outboxId).mp ⟨row, hrow, rfl⟩
      lia
    · show first ≤ o.nextOutboxId + i ∧ o.nextOutboxId + i < o'.nextOutboxId
      lia
  · rintro ⟨hle, hlt⟩
    by_cases hold : id < o.nextOutboxId
    · obtain ⟨row, hrow, hid⟩ := (hs.mem_iff id).mpr ⟨hle, hold⟩
      exact ⟨row, (hrows row).mpr (.inl hrow), hid⟩
    · have hi : id - o.nextOutboxId < messages.length := by lia
      refine ⟨⟨o.nextOutboxId + (id - o.nextOutboxId), messages[id - o.nextOutboxId], false⟩,
        (hrows _).mpr (.inr ⟨_, hi, rfl⟩), ?_⟩
      show o.nextOutboxId + (id - o.nextOutboxId) = id
      lia
  · rcases (hrows row).mp hrow with hrow | ⟨i, hi, rfl⟩
    · exact hs.inflight_iff row hrow
    · show false = true ↔ o.nextOutboxId + i < middle
      constructor
      · intro hfalse
        cases hfalse
      · intro hlt
        lia

/-! ## Trims and releases -/

/-- A trim deletes the reserved rows up to its bound, a prefix of the reserved prefix. -/
theorem Spans.trim (hs : o.Spans first middle) (through : OutboxId) :
    (o.trimOutbox through).Spans (max first (min middle (through + 1))) middle := by
  have hfirst := hs.first_le
  have hkept : ∀ row ∈ o.rows, row ∈ (o.trimOutbox through).rows ↔
      ¬(row.outboxId ≤ through ∧ row.outboxId < middle) := by
    intro row hrow
    rw [mem_trimOutbox, hs.inflight_iff row hrow]
    exact and_iff_right hrow
  refine ⟨by lia, hs.le_next, hs.next_le, fun id => ⟨?_, ?_⟩, fun row hrow => ?_⟩
  · rintro ⟨row, hrow, rfl⟩
    have hold : row ∈ o.rows := (mem_trimOutbox.mp hrow).1
    have hid := (hs.mem_iff row.outboxId).mp ⟨row, hold, rfl⟩
    have hnot := (hkept row hold).mp hrow
    show max first (min middle (through + 1)) ≤ row.outboxId ∧ row.outboxId < o.nextOutboxId
    lia
  · rintro ⟨hle, hlt⟩
    obtain ⟨row, hrow, hid⟩ := (hs.mem_iff id).mpr ⟨by lia, hlt⟩
    refine ⟨row, (hkept row hrow).mpr ?_, hid⟩
    lia
  · exact hs.inflight_iff row (mem_trimOutbox.mp hrow).1

/-- Marking rows keeps the ids. -/
theorem exists_id_setInflightWhere {hit : OutboxRow M → Bool} {b : Bool} {id : OutboxId} :
    (∃ row ∈ (o.setInflightWhere hit b).rows, row.outboxId = id) ↔
      ∃ row ∈ o.rows, row.outboxId = id := by
  constructor
  · rintro ⟨row, hrow, rfl⟩
    obtain ⟨s, hs, rfl⟩ := mem_setInflightWhere.mp hrow
    exact ⟨s, hs, by split_ifs <;> rfl⟩
  · rintro ⟨row, hrow, rfl⟩
    exact ⟨_, mem_setInflightWhere.mpr ⟨row, hrow, rfl⟩, by split_ifs <;> rfl⟩

/-- A release gives all rows back. -/
theorem Spans.release (hs : o.Spans first middle) :
    o.releaseOutboxMessages.1.Spans first first where
  first_le := le_rfl
  le_next := hs.first_le.trans hs.le_next
  next_le := hs.next_le
  mem_iff id := exists_id_setInflightWhere.trans (hs.mem_iff id)
  inflight_iff row hrow := by
    have hid := (hs.mem_iff row.outboxId).mp (exists_id_setInflightWhere.mp ⟨row, hrow, rfl⟩)
    refine iff_of_false (fun hin => ?_) (by lia)
    exact not_reserved_releaseOutboxMessages o row.entry ⟨row, hrow, rfl, hin⟩

/-! ## Reservations -/

/-- The ids of the unreserved rows, in the order in which they are read. -/
theorem Spans.unreserved_ids (hs : o.Spans first middle) :
    o.unreserved.map OutboxRow.outboxId = List.range' middle (o.nextOutboxId - middle) := by
  have hsorted : (o.unreserved.map OutboxRow.outboxId).Pairwise (· < ·) :=
    List.pairwise_map.mpr (pairwise_unreserved o)
  have hrange : (List.range' middle (o.nextOutboxId - middle)).Pairwise (· < ·) :=
    List.pairwise_lt_range'
  have hmem : ∀ id, id ∈ o.unreserved.map OutboxRow.outboxId ↔
      id ∈ List.range' middle (o.nextOutboxId - middle) := by
    intro id
    have hfirst := hs.first_le
    have hnext := hs.le_next
    rw [List.mem_range'_1, List.mem_map]
    constructor
    · rintro ⟨row, hrow, rfl⟩
      obtain ⟨hrow, hin⟩ := mem_unreserved.mp hrow
      have hid := (hs.mem_iff row.outboxId).mp ⟨row, hrow, rfl⟩
      have hnot : ¬row.outboxId < middle := by
        rw [← hs.inflight_iff row hrow, hin]
        exact Bool.false_ne_true
      lia
    · rintro ⟨hle, hlt⟩
      obtain ⟨row, hrow, rfl⟩ := (hs.mem_iff id).mpr ⟨by lia, by lia⟩
      refine ⟨row, mem_unreserved.mpr ⟨hrow, ?_⟩, rfl⟩
      rw [Bool.eq_false_iff, Ne, hs.inflight_iff row hrow]
      lia
  have hperm : (o.unreserved.map OutboxRow.outboxId).Perm
      (List.range' middle (o.nextOutboxId - middle)) :=
    (List.perm_ext_iff_of_nodup (hsorted.imp ne_of_lt) (hrange.imp ne_of_lt)).mpr hmem
  exact hperm.eq_of_pairwise (fun _ _ _ _ h h' => absurd h (lt_asymm h')) hsorted hrange

/-- The rows a reservation takes have consecutive ids from the boundary on. -/
theorem Spans.take_ids (hs : o.Spans first middle) (limit : Nat) :
    (o.unreserved.take limit).map OutboxRow.outboxId =
      List.range' middle (min limit (o.nextOutboxId - middle)) := by
  rw [List.map_take, hs.unreserved_ids]
  rcases Nat.le_total limit (o.nextOutboxId - middle) with hle | hle
  · rw [List.take_range'_of_length_ge hle, Nat.min_eq_left hle]
  · rw [List.take_range'_of_length_le hle, Nat.min_eq_right hle]

/-- The rows a reservation takes. -/
theorem Spans.mem_take_unreserved (hs : o.Spans first middle) {limit : Nat} {row : OutboxRow M}
    (hrow : row ∈ o.rows) : row ∈ o.unreserved.take limit ↔
      middle ≤ row.outboxId ∧
        row.outboxId < middle + min limit (o.nextOutboxId - middle) := by
  rw [← List.mem_range'_1, ← hs.take_ids limit, List.mem_map]
  constructor
  · intro h
    exact ⟨row, h, rfl⟩
  · rintro ⟨s, hmem, hid⟩
    have hsRow := (mem_unreserved.mp (List.mem_of_mem_take hmem)).1
    exact Table.eq_of_key_eq hsRow hrow hid ▸ hmem

/-- Unreserved rows with consecutive ids below the column's bound pass the check. -/
theorem assertContiguousFrom_ok {rows : List (OutboxRow M)} {expected count : Nat}
    (hids : rows.map OutboxRow.outboxId = List.range' expected count)
    (hin : ∀ row ∈ rows, row.inflight = false) (hbound : expected + count ≤ i64Max) :
    assertContiguousFrom expected rows = .ok () := by
  induction rows generalizing expected count with
  | nil => rfl
  | cons row rows ih =>
    cases count with
    | zero => cases hids
    | succ count =>
      rw [List.map_cons, List.range'_succ, List.cons.injEq] at hids
      obtain ⟨hid, hids⟩ := hids
      have hrow : ¬row.inflight = true := by
        rw [hin row List.mem_cons_self]
        exact Bool.false_ne_true
      have hnext : row.outboxId.checkedNext = some (expected + 1) := by
        rw [OutboxId.checkedNext, hid, if_pos]
        have : i64Max < 2 ^ 64 := by decide
        lia
      rw [assertContiguousFrom, if_neg hrow, if_neg (not_not.mpr hid), hnext]
      exact ih hids (fun r hr => hin r (List.mem_cons_of_mem _ hr)) (by lia)

/-- The reserving update hits exactly the rows that were read. -/
theorem Spans.mem_select_reserveRange (hs : o.Spans first middle) {limit : Nat} {head last row : OutboxRow M}
    (hhead : (o.unreserved.take limit).head? = some head)
    (hlast : (o.unreserved.take limit).getLast? = some last) :
    row ∈ o.rows.select (reserveRange head.outboxId last.outboxId) ↔
      row ∈ o.unreserved.take limit := by
  have hids := hs.take_ids limit
  obtain ⟨count, hcount⟩ : ∃ count, min limit (o.nextOutboxId - middle) = count + 1 := by
    cases hmin : min limit (o.nextOutboxId - middle) with
    | succ count => exact ⟨count, rfl⟩
    | zero =>
      rw [hmin, List.range'_zero, List.map_eq_nil_iff] at hids
      rw [hids] at hhead
      cases hhead
  rw [hcount] at hids
  have hheadId : head.outboxId = middle := by
    have h := congrArg List.head? hids
    rw [List.head?_map, hhead, List.head?_range', if_neg (Nat.succ_ne_zero count)] at h
    exact Option.some.inj h
  have hlastId : last.outboxId = middle + count := by
    have h := congrArg List.getLast? hids
    rw [List.getLast?_map, hlast, List.getLast?_range', if_neg (Nat.succ_ne_zero count)] at h
    exact Option.some.inj h
  rw [Table.mem_select]
  constructor
  · rintro ⟨hrow, hhit⟩
    simp only [reserveRange, Bool.and_eq_true, Bool.not_eq_true', decide_eq_true_eq] at hhit
    rw [hs.mem_take_unreserved hrow]
    lia
  · intro hrow
    obtain ⟨hrow', hin⟩ := mem_unreserved.mp (List.mem_of_mem_take hrow)
    have hid := (hs.mem_take_unreserved hrow').mp hrow
    refine ⟨hrow', ?_⟩
    simp only [reserveRange, Bool.and_eq_true, Bool.not_eq_true', decide_eq_true_eq]
    lia

/-- What a reservation returns when its checks pass. -/
theorem reserveOutboxMessages_of_checks {limit : Nat} (hlimit : limit ≤ i64Max)
    (hassert : assertContiguousOutboxRows (o.unreserved.take limit) = .ok ())
    (hcount : ∀ head last, (o.unreserved.take limit).head? = some head →
      (o.unreserved.take limit).getLast? = some last →
      (o.rows.select (reserveRange head.outboxId last.outboxId)).length =
        (o.unreserved.take limit).length) :
    ∃ o', o.reserveOutboxMessages limit =
        .ok (o', (o.unreserved.take limit).map OutboxRow.entry) ∧
      (o.unreserved.take limit = [] ∧ o' = o ∨
        ∃ head last, (o.unreserved.take limit).head? = some head ∧
          (o.unreserved.take limit).getLast? = some last ∧
          o' = o.setInflightWhere (reserveRange head.outboxId last.outboxId) true) := by
  simp only [reserveOutboxMessages, bind, Except.bind, pure, Except.pure, throw, throwThe,
    MonadExceptOf.throw]
  rw [if_neg (Nat.not_lt.mpr hlimit)]
  simp only [hassert]
  cases hrows : o.unreserved.take limit with
  | nil => exact ⟨o, rfl, .inl ⟨rfl, rfl⟩⟩
  | cons head rows =>
    rw [hrows] at hcount
    have hlast := List.getLast?_eq_some_getLast (List.cons_ne_nil head rows)
    have hlength := hcount head _ rfl hlast
    refine ⟨_, ?_, .inr ⟨head, _, rfl, hlast, rfl⟩⟩
    simp only [List.head?_cons, hlast]
    rw [if_neg (not_not.mpr hlength)]

/-- A reservation with a limit that fits a column succeeds: it hands out the rows at the boundary
in id order and moves the boundary behind them. -/
theorem Spans.reserve (hs : o.Spans first middle) {limit : Nat} (hlimit : limit ≤ i64Max) :
    ∃ o' messages, o.reserveOutboxMessages limit = .ok (o', messages) ∧
      messages.map Prod.fst = List.range' middle (min limit (o.nextOutboxId - middle)) ∧
      o'.Spans first (middle + min limit (o.nextOutboxId - middle)) := by
  have hids := hs.take_ids limit
  have hnext := hs.le_next
  have hbound := hs.next_le
  have hfirst := hs.first_le
  have hassert : assertContiguousOutboxRows (o.unreserved.take limit) = .ok () := by
    cases hrows : o.unreserved.take limit with
    | nil => rfl
    | cons row rows =>
      rw [hrows] at hids
      have hin : ∀ r ∈ row :: rows, r.inflight = false := by
        intro r hr
        rw [← hrows] at hr
        exact (mem_unreserved.mp (List.mem_of_mem_take hr)).2
      have hhead : row.outboxId = middle := by
        have h := congrArg List.head? hids
        rw [List.head?_map, List.head?_cons, List.head?_range'] at h
        split_ifs at h with hzero
        · cases h
        · exact Option.some.inj h
      rw [assertContiguousOutboxRows, hhead]
      exact assertContiguousFrom_ok hids hin (by lia)
  have hfst : ((o.unreserved.take limit).map OutboxRow.entry).map Prod.fst =
      List.range' middle (min limit (o.nextOutboxId - middle)) := by
    rw [List.map_map]
    exact hids
  have hcount : ∀ head last, (o.unreserved.take limit).head? = some head →
      (o.unreserved.take limit).getLast? = some last →
      (o.rows.select (reserveRange head.outboxId last.outboxId)).length =
        (o.unreserved.take limit).length := by
    intro head last hhead hlast
    have hnodup : (o.rows.select (reserveRange head.outboxId last.outboxId)).Nodup :=
      (List.Nodup.of_map _ o.rows.keys_nodup).filter _
    have hnodup' : (o.unreserved.take limit).Nodup :=
      ((pairwise_unreserved o).imp fun h => ne_of_apply_ne OutboxRow.outboxId (ne_of_lt h)).sublist
        (List.take_sublist _ _)
    have hmem : ∀ row, row ∈ o.rows.select (reserveRange head.outboxId last.outboxId) ↔
        row ∈ o.unreserved.take limit :=
      fun _ => hs.mem_select_reserveRange hhead hlast
    exact ((List.perm_ext_iff_of_nodup hnodup hnodup').mpr hmem).length_eq
  obtain ⟨o', hreserve, ho'⟩ := reserveOutboxMessages_of_checks hlimit hassert hcount
  refine ⟨o', _, hreserve, hfst, ?_⟩
  rcases ho' with ⟨hnil, rfl⟩ | ⟨head, last, hhead, hlast, rfl⟩
  · have hzero : min limit (o'.nextOutboxId - middle) = 0 := by
      have hlength := congrArg List.length hids
      rw [hnil, List.length_map, List.length_range'] at hlength
      exact hlength.symm
    rw [hzero]
    exact hs
  · have hnextId : (o.setInflightWhere (reserveRange head.outboxId last.outboxId) true).nextOutboxId =
        o.nextOutboxId := rfl
    refine ⟨by lia, by lia, by lia, fun id => exists_id_setInflightWhere.trans (hs.mem_iff id),
      fun row hrow => ?_⟩
    obtain ⟨s, hs', rfl⟩ := mem_setInflightWhere.mp hrow
    have hhit : reserveRange head.outboxId last.outboxId s = true ↔ middle ≤ s.outboxId ∧
        s.outboxId < middle + min limit (o.nextOutboxId - middle) := by
      have hselect : reserveRange head.outboxId last.outboxId s = true ↔
          s ∈ o.unreserved.take limit := by
        rw [← hs.mem_select_reserveRange hhead hlast, Table.mem_select]
        exact (and_iff_right hs').symm
      rw [hselect, hs.mem_take_unreserved hs']
    split_ifs with h
    · exact iff_of_true rfl (hhit.mp h).2
    · rw [hs.inflight_iff s hs']
      rw [hhit] at h
      lia

/-- A reservation that succeeds moves the boundary behind the rows it hands out. -/
theorem Spans.reserve_of_ok (hs : o.Spans first middle) {limit : Nat}
    {messages : List (OutboxId × M)} (h : o.reserveOutboxMessages limit = .ok (o', messages)) :
    ∃ count, messages.map Prod.fst = List.range' middle count ∧
      o'.Spans first (middle + count) := by
  by_cases hlimit : limit ≤ i64Max
  · obtain ⟨o₁, messages₁, hreserve, hids, hspans⟩ := hs.reserve hlimit
    rw [hreserve] at h
    cases h
    exact ⟨_, hids, hspans⟩
  · rw [reserveOutboxMessages, if_pos (Nat.lt_of_not_le hlimit)] at h
    cases h

/-! ## Runs of operations -/

theorem pushOutboxMessages_nil (o : Outbox M) : o.pushOutboxMessages [] = .ok o := rfl

/-- The transactions on the table, with the restart of the daemon. -/
inductive Operation (M : Type) where
  /-- A local mutation allocates ids for its messages and inserts them. -/
  | push (messages : List M)
  /-- Rows are read for the log writer. -/
  | reserve (limit : Nat)
  /-- Acknowledged rows are deleted. -/
  | trim (through : OutboxId)
  /-- The reservations are given back. -/
  | release
  /-- The daemon starts again on its database. -/
  | restart

/-- The transaction of an operation. -/
def perform (o : Outbox M) : Operation M → Except SemanticTransactionError (Outbox M)
  | .push messages => o.pushOutboxMessages messages
  | .reserve limit => (o.reserveOutboxMessages limit).map Prod.fst
  | .trim through => o.trimOutboxTx through
  | .release => .ok o.releaseOutboxMessages.1
  | .restart => .ok o.releaseOutboxMessages.1

variable (M) in
/-- Any sequence of operations on the table of a new database: one that fails is rolled back. -/
def machine : Machine (Outbox M) (Operation M) where
  initial o := o = empty
  step o operation := some ((o.perform operation).toOption.getD o)

/-- Every operation keeps the shape. -/
theorem Spans.perform (hs : o.Spans first middle) {operation : Operation M}
    (h : o.perform operation = .ok o') : ∃ first middle, o'.Spans first middle := by
  cases operation with
  | push messages => exact ⟨first, middle, hs.push h⟩
  | reserve limit =>
    rw [Outbox.perform] at h
    cases hreserve : o.reserveOutboxMessages limit with
    | error e =>
      rw [hreserve] at h
      cases h
    | ok r =>
      obtain ⟨o₁, messages⟩ := r
      rw [hreserve] at h
      cases h
      obtain ⟨count, -, hspans⟩ := hs.reserve_of_ok hreserve
      exact ⟨_, _, hspans⟩
  | trim through =>
    obtain ⟨-, rfl⟩ := trimOutboxTx_eq_ok.mp h
    exact ⟨_, _, hs.trim through⟩
  | release =>
    cases h
    exact ⟨_, _, hs.release⟩
  | restart =>
    cases h
    exact ⟨_, _, hs.release⟩

/-- A step of a run performs an operation or changes nothing. -/
theorem step_eq_some {operation : Operation M} :
    (machine M).step o operation = some o' ↔ (o.perform operation).toOption.getD o = o' :=
  Option.some_inj

/-- In every run the ids in the table are one interval and the reserved rows a prefix of it. -/
theorem spans_of_reached (h : (machine M).Reached o) : ∃ first middle, o.Spans first middle := by
  refine h.invariant (I := fun o => ∃ first middle, o.Spans first middle) ?_ ?_
  · rintro o rfl
    exact ⟨0, 0, spans_empty⟩
  · intro o operation o' _ hspans _ hstep
    obtain ⟨first, middle, hs⟩ := hspans
    rw [step_eq_some] at hstep
    cases hperform : o.perform operation with
    | error e =>
      rw [hperform] at hstep
      cases hstep
      exact ⟨first, middle, hs⟩
    | ok o₁ =>
      rw [hperform] at hstep
      cases hstep
      exact hs.perform hperform

/-- In every run of operations on the table of a new database the ids in it are one interval that
ends below the counter, the reserved rows are a prefix of it, and a reservation whose limit fits a
column hands out the rows behind that prefix in id order, without a gap. -/
theorem reserves_in_order (h : (machine M).Reached o) : ∃ first middle : OutboxId,
    o.Spans first middle ∧
    (∀ limit ≤ i64Max, ∃ o' messages, o.reserveOutboxMessages limit = .ok (o', messages) ∧
      messages.map Prod.fst = List.range' middle (min limit (o.nextOutboxId - middle)) ∧
      ∀ e ∈ messages, e ∈ o.store) ∧
    ∀ limit, i64Max < limit → o.reserveOutboxMessages limit =
      .error (.invariantViolation "outbox read limit out of range") := by
  obtain ⟨first, middle, hs⟩ := spans_of_reached h
  refine ⟨first, middle, hs, fun limit hlimit => ?_, fun limit hlimit => ?_⟩
  · obtain ⟨o', messages, hreserve, hids, -⟩ := hs.reserve hlimit
    refine ⟨o', messages, hreserve, hids, fun e he => ?_⟩
    rw [(reserveOutboxMessages_spec hreserve).2.2.1] at he
    obtain ⟨row, hrow, rfl⟩ := List.mem_map.mp he
    exact entry_mem_store (mem_unreserved.mp (List.mem_of_mem_take hrow)).1
  · rw [reserveOutboxMessages, if_pos hlimit]
    rfl

/-- Three rows of which two are reserved and one trimmed, a fourth row, a stale trim, and a release
before the next rows are read. -/
def trimRun : List (Operation Nat) :=
  [.push [7, 8], .push [9], .reserve 2, .trim 0, .push [5], .release, .reserve 1, .trim 0]

/-- What `reserves_in_order` says after this run: row 1 is reserved, and rows 2 and 3 are next. -/
theorem reserves_in_order_trimRun : ∃ o : Outbox Nat, (machine Nat).exec empty trimRun = some o ∧
    o.nextOutboxId = 4 ∧ (o.unreserved.map OutboxRow.outboxId) = [2, 3] ∧
    ∃ first middle : OutboxId, o.Spans first middle ∧
      (∀ limit ≤ i64Max, ∃ o' messages, o.reserveOutboxMessages limit = .ok (o', messages) ∧
        messages.map Prod.fst = List.range' middle (min limit (o.nextOutboxId - middle)) ∧
        ∀ e ∈ messages, e ∈ o.store) ∧
      ∀ limit, i64Max < limit → o.reserveOutboxMessages limit =
        .error (.invariantViolation "outbox read limit out of range") := by
  have hrun : ((machine Nat).exec empty trimRun).any (fun o =>
      decide (o.nextOutboxId = 4 ∧ o.unreserved.map OutboxRow.outboxId = [2, 3])) = true := by
    decide +kernel
  obtain ⟨o, hexec, ho⟩ := Machine.exists_exec hrun
  obtain ⟨hnext, hunreserved⟩ := of_decide_eq_true ho
  exact ⟨o, hexec, hnext, hunreserved,
    reserves_in_order (Machine.reached_of_exec (M := machine Nat) rfl hexec)⟩

end Outbox

end Opbox
