import DequeMachine.Proofs.Machine.Contents
import DequeMachine.Proofs.Machine.Halting

/-!
# DequeMachine.Proofs.Machine.MemoryLimit

A limit on the nodes shows only where a push finds no room.

1. Where there is room, an instruction does the same under every larger limit: `exec_withLimit`.
2. `PushesAt` is a line that pushes while there is a given number of nodes.  Without one that finds
   as many nodes as there may be, the limit does not show: `runLines_withLimit`.
3. Where there is one, the lines end, and with more room there is a node more after it:
   `PushesAt.runLines_eq` and `PushesAt.lt_size`.
4. `Report.RunsOut` is what this means for a whole program; `runSource_withLimit` has both cases.
-/

namespace DequeMachine

/-! ## Room for a node -/

namespace Deque.Holds

variable {d : Deque} {vs : List Value} {limit larger : Nat}

theorem length_le (h : d.Holds limit vs) : vs.length ≤ limit := by
  obtain ⟨nodes, hd, hl, rfl⟩ := h
  rw [List.length_map]
  exact Nat.le_trans hd.linked.length_le hl

/-- If there is room for a node, more room does not change where it goes. -/
theorem vacancy?_of_le (h : d.Holds limit vs) (hroom : vs.length ≠ limit) (hle : limit ≤ larger) :
    d.vacancy? larger = d.vacancy? limit := by
  have hsome := mt h.vacancy?_eq_none_iff.mp hroom
  unfold Deque.vacancy? at hsome ⊢
  cases hfree : d.free with
  | cons i rest => rfl
  | nil =>
      have hlt : d.slots.size < limit := by
        by_contra hnot
        simp [hfree, hnot] at hsome
      have hlt' : d.slots.size < larger := Nat.lt_of_lt_of_le hlt hle
      simp only [hlt, hlt']

/-- An instruction that finds room, if it needs any, does the same under every larger limit. -/
theorem effect_of_le (h : d.Holds limit vs) {i : Instruction}
    (hroom : ∀ v, i = .push v → vs.length ≠ limit) (hle : limit ≤ larger) (mode : Mode) :
    i.effect larger mode d = i.effect limit mode d := by
  cases i with
  | push v =>
      have hv := h.vacancy?_of_le (hroom v rfl) hle
      have hfront : d.pushFront larger v = d.pushFront limit v := by
        rw [Deque.pushFront, Deque.pushFront, Deque.pushFront?, Deque.pushFront?, hv]
      have hback : d.pushBack larger v = d.pushBack limit v := by
        rw [Deque.pushBack, Deque.pushBack, Deque.pushBack?, Deque.pushBack?, hv]
      let reply (r : Bool × Deque) : Option ExecError × Deque :=
        (if r.1 then none else some .outOfMemory, r.2)
      cases mode with
      | stack => exact congrArg reply hfront
      | queue => exact congrArg reply hback
  | _ => rfl

end Deque.Holds

namespace Machine

variable {m : Machine} {vs : List Value} {v : Value} {text : List Char} {texts : List (List Char)}
  {larger count n : Nat}

/-! ## Where the limit does not show -/

/-- The same machine with another limit. -/
def withLimit (limit : Nat) (m : Machine) : Machine := { m with limit }

theorem exec_withLimit (h : m.deque.Holds m.limit vs) {i : Instruction}
    (hroom : ∀ v, i = .push v → vs.length ≠ m.limit) (hle : m.limit ≤ larger) :
    (m.withLimit larger).exec i = ((m.exec i).1, (m.exec i).2.withLimit larger) :=
  exec_change rfl (fun _ => rfl) (h.effect_of_le hroom hle m.mode) fun _ _ => rfl

/-- After `n` lines, none of which fails, there are `count` nodes, and the next line pushes `v`. -/
structure PushesAt (m : Machine) (texts : List (List Char)) (count n : Nat) (v : Value) : Prop where
  ok : (m.runLines #[] (texts.take n)).error? = none
  size : (m.runLines #[] (texts.take n)).machine.deque.size = count
  line : ∃ text, texts[n]? = some text ∧ Statement.parse text = .ok (.instruction (.push v))

namespace PushesAt

theorem lt_length (h : m.PushesAt texts count n v) : n < texts.length := by
  obtain ⟨text, htext, -⟩ := h.line
  exact (List.getElem?_eq_some_iff.mp htext).1

/-- Lines after a push do not matter for it. -/
theorem take_iff {k : Nat} (hk : k < n) :
    m.PushesAt (texts.take n) count k v ↔ m.PushesAt texts count k v := by
  have htake : (texts.take n).take k = texts.take k := by
    rw [List.take_take, Nat.min_eq_left (Nat.le_of_lt hk)]
  have hline : (texts.take n)[k]? = texts[k]? := List.getElem?_take_of_lt hk
  constructor
  · rintro ⟨ok, size, line⟩
    exact ⟨htake ▸ ok, htake ▸ size, hline ▸ line⟩
  · rintro ⟨ok, size, line⟩
    exact ⟨htake.symm ▸ ok, htake.symm ▸ size, hline.symm ▸ line⟩

end PushesAt

/-- If no line pushes without room, a larger limit makes no difference. -/
theorem runLines_withLimit (h : m.deque.Holds m.limit vs) (hle : m.limit ≤ larger)
    (hroom : ∀ n v, ¬m.PushesAt texts m.limit n v) :
    (m.withLimit larger).runLines #[] texts = (m.runLines #[] texts).map (withLimit larger) := by
  have haside : Aside (withLimit larger) :=
    ⟨fun _ => rfl, fun _ => rfl, fun _ _ => rfl, fun _ => rfl⟩
  refine runLines_change fun n text htext hok => ?_
  let q := m.runLines #[] (texts.take n)
  have hlimit : q.machine.limit = m.limit := m.runLines_limit (texts.take n)
  obtain ⟨vs', hvs'⟩ := exists_holds h (texts.take n)
  have hnext : q.machine.next.deque.Holds q.machine.next.limit vs' := hvs'
  refine ignores_of_exec haside fun i hparse =>
    exec_withLimit hnext (fun v hpush hfull => ?_) (hlimit ▸ hle)
  have hsize : q.machine.deque.size = m.limit := hvs'.shows.size.trans (hfull.trans hlimit)
  exact hroom n v ⟨hok, hsize, text, htext, hpush ▸ hparse⟩

/-- A larger limit makes no difference to the first lines if none of them pushes without room. -/
theorem runLines_take_withLimit (hm : m.deque.Holds m.limit vs) (hle : m.limit ≤ larger) {k : Nat}
    (hroom : ∀ j < k, ∀ w, ¬m.PushesAt texts m.limit j w) :
    (m.withLimit larger).runLines #[] (texts.take k) =
      (m.runLines #[] (texts.take k)).map (withLimit larger) := by
  refine runLines_withLimit hm hle fun j w hj => ?_
  have hjk : j < k := Nat.lt_of_lt_of_le hj.lt_length (List.length_take_le k texts)
  exact hroom j hjk w ((PushesAt.take_iff hjk).mp hj)

/-! ## Pushes -/

/-- A push that finds no room fails and changes nothing. -/
theorem exec_push_of_full (h : m.deque.Holds m.limit vs) (hfull : vs.length = m.limit) (v : Value) :
    m.exec (.push v) = (some .outOfMemory, m) := by
  have hlist : ListMachine.exec m.limit m.mode vs (.push v) = .error .outOfMemory := by
    simp [ListMachine.exec, hfull]
  cases h.executes (.push v) with
  | fails onList eq =>
      obtain rfl := Except.error.inj (hlist.symm.trans onList)
      exact eq
  | refused onList _ _ | succeeds onList _ _ _ => simp [hlist] at onList

/-- A push that finds room makes a node more, whatever the sink takes. -/
theorem exec_push_of_room (h : m.deque.Holds m.limit vs) (hroom : vs.length ≠ m.limit) (v : Value) :
    ∃ d, m.exec (.push v) = (none, { m with deque := d }) ∧ d.size = vs.length + 1 := by
  obtain ⟨vs', hlist, hlength⟩ : ∃ vs',
      ListMachine.exec m.limit m.mode vs (.push v) = .ok ([], vs') ∧
        vs'.length = vs.length + 1 := by
    cases hmode : m.mode <;> simp [ListMachine.exec, hroom]
  cases h.executes (.push v) with
  | fails onList _ => simp [hlist] at onList
  | refused onList refusal _ =>
      obtain ⟨rfl, -⟩ := Prod.mk.inj (Except.ok.inj (hlist.symm.trans onList))
      simp at refusal
  | @succeeds _ _ d onList _ holds eq =>
      obtain ⟨rfl, rfl⟩ := Prod.mk.inj (Except.ok.inj (hlist.symm.trans onList))
      rw [Sink.write_nil] at eq
      exact ⟨d, eq, holds.shows.size.trans hlength⟩

/-- A push is reported with no output. -/
theorem step_push (h : m.deque.Holds m.limit vs)
    (hparse : Statement.parse text = .ok (.instruction (.push v))) :
    (m.step text).log = #[⟨.exec (m.line + 1) (.push v), []⟩] ∧
      (vs.length = m.limit → (m.step text).error? = some (.exec (m.line + 1) .outOfMemory) ∧
        (m.step text).machine = m.next) ∧
      (vs.length ≠ m.limit → (m.step text).machine.deque.size = vs.length + 1) := by
  have hnext : m.next.deque.Holds m.next.limit vs := h
  have hsince : m.next.sink.since m.sink.written.size = [] := m.sink.since_self
  rw [step_of_instruction hparse, execAt]
  by_cases hfull : vs.length = m.limit
  · rw [exec_push_of_full hnext hfull, hsince]
    exact ⟨rfl, fun _ => ⟨rfl, rfl⟩, fun hroom => absurd hfull hroom⟩
  · obtain ⟨d, hexec, hsize⟩ := exec_push_of_room hnext hfull v
    rw [hexec, hsince]
    exact ⟨rfl, fun heq => absurd heq hfull, fun _ => hsize⟩

/-! ## The push that finds no room -/

namespace PushesAt

variable {k : Nat} {w : Value}

/-- What the push adds to the lines before it. -/
theorem runLines_take (h : m.PushesAt texts count n v) (hm : m.deque.Holds m.limit vs) :
    let q := m.runLines #[] (texts.take n)
    let r := m.runLines #[] (texts.take (n + 1))
    r.log = q.log.push ⟨.exec (q.machine.line + 1) (.push v), []⟩ ∧
      (count = m.limit → r.error? = some (.exec (q.machine.line + 1) .outOfMemory) ∧
        r.machine = q.machine.next) ∧
      (count ≠ m.limit → r.machine.deque.size = count + 1) := by
  intro q r
  obtain ⟨text, htext, hparse⟩ := h.line
  obtain ⟨vs', hvs'⟩ := exists_holds hm (texts.take n)
  have hlimit : q.machine.limit = m.limit := m.runLines_limit (texts.take n)
  obtain ⟨hlog, hrest⟩ := step_push hvs' hparse
  have hr : r = ⟨(q.machine.step text).error?, q.log ++ (q.machine.step text).log,
      (q.machine.step text).machine⟩ := runLines_take_succ h.ok htext
  have hcount : count = vs'.length := h.size.symm.trans hvs'.shows.size
  rw [hr, hcount, ← hlimit]
  exact ⟨congrArg (q.log ++ ·) hlog, hrest⟩

/-- Where a push finds no room, the lines end. -/
theorem runLines_eq (h : m.PushesAt texts m.limit n v) (hm : m.deque.Holds m.limit vs) :
    let q := m.runLines #[] (texts.take n)
    m.runLines #[] texts =
      { error? := some (.exec (q.machine.line + 1) .outOfMemory)
        log := q.log.push ⟨.exec (q.machine.line + 1) (.push v), []⟩
        machine := q.machine.next } := by
  intro q
  obtain ⟨hlog, hfull, -⟩ := h.runLines_take hm
  obtain ⟨herror, hmachine⟩ := hfull rfl
  have hall := runLines_append_of_error herror (texts.drop (n + 1))
  rw [List.take_append_drop] at hall
  rw [hall, ← hlog, ← herror, ← hmachine]

/-- The push is reported after the lines before it, and other lines may follow. -/
theorem exists_log (h : m.PushesAt texts count n v) (hm : m.deque.Holds m.limit vs) :
    let q := m.runLines #[] (texts.take n)
    ∃ later, (m.runLines #[] texts).log.toList =
      q.log.toList ++ ⟨.exec (q.machine.line + 1) (.push v), []⟩ :: later := by
  intro q
  obtain ⟨hlog, -⟩ := h.runLines_take hm
  obtain ⟨later, hlater⟩ := runLines_isPrefix (m := m) (List.take_prefix (n + 1) texts)
  refine ⟨later, ?_⟩
  rw [← hlater, hlog, Array.toList_push, List.append_assoc]
  rfl

/-- A push that finds no room is the last line that is run. -/
theorem le (hk : m.PushesAt texts m.limit k w) (hm : m.deque.Holds m.limit vs)
    (hn : (m.runLines #[] (texts.take n)).error? = none) : n ≤ k := by
  by_contra hlt
  have heq := ((take_iff (Nat.not_le.mp hlt)).mpr hk).runLines_eq hm
  rw [heq] at hn
  simp at hn

/-- Up to a push that finds no room, a larger limit makes no difference. -/
theorem take_withLimit (h : m.PushesAt texts m.limit n v) (hm : m.deque.Holds m.limit vs)
    (hle : m.limit ≤ larger) (hk : k ≤ n) :
    (m.withLimit larger).runLines #[] (texts.take k) =
      (m.runLines #[] (texts.take k)).map (withLimit larger) := by
  refine runLines_take_withLimit hm hle fun j hjk w hj => ?_
  have hnj : n ≤ j := hj.le hm h.ok
  omega

theorem withLimit_iff (h : m.PushesAt texts m.limit n v) (hm : m.deque.Holds m.limit vs)
    (hle : m.limit ≤ larger) (hk : k ≤ n) :
    (m.withLimit larger).PushesAt texts count k w ↔ m.PushesAt texts count k w := by
  have htake := h.take_withLimit hm hle hk
  constructor
  · rintro ⟨ok, size, line⟩
    rw [htake] at ok size
    exact ⟨ok, size, line⟩
  · rintro ⟨ok, size, line⟩
    exact ⟨by rw [htake]; exact ok, by rw [htake]; exact size, line⟩

end PushesAt

end Machine

/-! ## Programs -/

/-- The report `r` of a program ends on line `n + 1`, which pushes `v` where there are already
`limit` nodes and no more may be.  The report with a larger limit is `u`, and that of the first `n`
lines alone is `q`. -/
structure Report.RunsOut (r u q : Report) (limit n : Nat) (v : Value) : Prop where
  error? : r.error? = some (.exec (n + 1) .outOfMemory)
  /-- After the push that fails, only the nodes are reported that there were before it. -/
  log : ∃ before after,
    q.log.toList = before ++ [⟨.released limit, []⟩] ∧
      u.log.toList = before ++ ⟨.exec (n + 1) (.push v), []⟩ :: after ∧
      r.log.toList = before ++ [⟨.exec (n + 1) (.push v), []⟩, ⟨.released limit, []⟩]
  /-- Nothing is printed after the lines before it, and the sink is flushed as after them. -/
  machine : r.machine = { q.machine with limit := limit, line := n + 1, status := .failed }

namespace Machine

variable {limit larger n : Nat} {sink : Sink} {texts : List (List Char)} {v : Value}

/-- If the lines of a program do not notice a larger limit, the end of the run does not either. -/
theorem run_withLimit {script : Script}
    (h : (new larger sink).runLines #[] script.lines =
      ((new limit sink).runLines #[] script.lines).map (withLimit larger)) :
    (new larger sink).run script = ((new limit sink).run script).map (withLimit larger) := by
  have hrun := congrArg (Report.finish · script.stop?) h
  exact hrun

theorem run_withLimit_self (m : Machine) (script : Script) :
    (m.run script).map (withLimit m.limit) = m.run script := by
  rw [← run_limit m script]
  rfl

namespace PushesAt

/-- With more room, there is a node more after the push. -/
theorem lt_size (h : (new limit sink).PushesAt texts limit n v) (hlt : limit < larger) :
    limit < ((new larger sink).runLines #[] (texts.take (n + 1))).machine.deque.size := by
  have hu := (h.withLimit_iff (.empty limit) hlt.le le_rfl).mpr h
  obtain ⟨-, -, hsize⟩ := hu.runLines_take (.empty larger)
  exact hsize hlt.ne ▸ Nat.lt_succ_self limit

/-- A program that pushes where there is no room ends there. -/
theorem runsOut (h : (new limit sink).PushesAt texts limit n v) (hle : limit ≤ larger)
    (stop? : Option ReadError) :
    ((new limit sink).run ⟨texts, stop?⟩).RunsOut ((new larger sink).run ⟨texts, stop?⟩)
      ((new larger sink).run ⟨texts.take n, none⟩) limit n v := by
  let m := new limit sink
  let u := new larger sink
  let q := m.runLines #[] (texts.take n)
  have hm : m.deque.Holds m.limit [] := .empty limit
  have hu : u.PushesAt texts limit n v := (h.withLimit_iff hm hle le_rfl).mpr h
  have hq : u.runLines #[] (texts.take n) = q.map (withLimit larger) :=
    h.take_withLimit hm hle le_rfl
  have hlimit : q.machine.limit = limit := m.runLines_limit (texts.take n)
  have hline : q.machine.line = n := by
    rw [runLines_line h.ok, List.length_take_of_le h.lt_length.le]
    exact Nat.zero_add n
  have hr : m.run ⟨texts, stop?⟩ =
      Report.finish ⟨some (.exec (n + 1) .outOfMemory),
        q.log.push ⟨.exec (n + 1) (.push v), []⟩, q.machine.next⟩ stop? := by
    rw [← hline]
    exact congrArg (Report.finish · stop?) (h.runLines_eq hm)
  have hlines : u.run ⟨texts.take n, none⟩ = (q.map (withLimit larger)).finish none :=
    congrArg (Report.finish · none) hq
  constructor
  case error? => rw [hr]; rfl
  case log =>
    obtain ⟨later, hlater⟩ := hu.exists_log (.empty larger)
    have hfinish := (u.runLines #[] texts).log_finish stop?
    rw [hlater, hq, List.append_assoc] at hfinish
    refine ⟨q.log.toList, later ++ [⟨.released (u.runLines #[] texts).machine.deque.size, []⟩],
      ?_, ?_, ?_⟩
    · rw [hlines, Report.log_finish, ← h.size]
      rfl
    · rw [← hline]
      exact hfinish
    · rw [hr, Report.log_finish, ← h.size, Array.toList_push, List.append_assoc]
      rfl
  case machine =>
    rw [hr, hlines, ← hlimit, ← hline]
    rfl

end PushesAt

/-- A limit on the nodes does nothing but refuse the first push that finds no room.  Two new
machines run the same program, one of them with a larger limit.  If there are never more nodes on
the latter than the former may have, the reports are the same.  If there are, the former runs out of
room at the first push that finds as many nodes as it may have; up to there the reports are the
same. -/
theorem runSource_withLimit (hle : limit ≤ larger) (sink : Sink) (s : Source) :
    let m := new limit sink
    let u := new larger sink
    let lines := s.script.lines
    let live (n : Nat) := (u.runLines #[] (lines.take n)).machine.deque.size
    ((∀ n, live n ≤ limit) → u.runSource s = (m.runSource s).map (withLimit larger)) ∧
      ((∃ n, limit < live n) → ∃ n v,
        (u.PushesAt lines limit n v ∧ ∀ k < n, ∀ w, ¬u.PushesAt lines limit k w) ∧
          u.run ⟨lines.take n, none⟩ = (m.run ⟨lines.take n, none⟩).map (withLimit larger) ∧
          (m.runSource s).RunsOut (u.runSource s) (u.run ⟨lines.take n, none⟩) limit n v) := by
  intro m u lines live
  have hm : m.deque.Holds m.limit [] := .empty limit
  rw [runSource_eq, runSource_eq]
  by_cases hpush : ∃ n v, m.PushesAt lines limit n v
  · obtain ⟨n, v, h⟩ := hpush
    constructor
    · intro hlive
      rcases hle.eq_or_lt with rfl | hlt
      · exact (m.run_withLimit_self s.script).symm
      · exact absurd (h.lt_size hlt) (Nat.not_lt.mpr (hlive (n + 1)))
    · rintro -
      refine ⟨n, v, ⟨(h.withLimit_iff hm hle le_rfl).mpr h, fun k hk w hw => ?_⟩, ?_, ?_⟩
      · have hnk : n ≤ k := ((h.withLimit_iff hm hle hk.le).mp hw).le hm h.ok
        omega
      · exact run_withLimit (h.take_withLimit hm hle le_rfl)
      · exact h.runsOut hle s.script.stop?
  · constructor
    · rintro -
      exact run_withLimit (runLines_withLimit hm hle fun n v h => hpush ⟨n, v, h⟩)
    · rintro ⟨k, hk⟩
      have hsame := runLines_take_withLimit (k := k) hm hle fun n _ v h => hpush ⟨n, v, h⟩
      obtain ⟨vs, hvs, -⟩ := runLines_holds hm (lines.take k)
      have hlive : live k = vs.length :=
        (congrArg (·.machine.deque.size) hsame).trans hvs.shows.size
      exact absurd hk (Nat.not_lt.mpr (hlive ▸ hvs.length_le))

/-- There is room for one node.  The first program pushes twice and needs no more; the second needs
one more on its third line. -/
theorem runSource_withLimit_pop :
    let m := new 1 .unlimited
    let u := new maxSlots .unlimited
    let s := Source.text "push 1\npop\npush 2\npint"
    let s' := Source.text "push 1\npint\npush 2\npint"
    let live (s : Source) (n : Nat) :=
      (u.runLines #[] (s.script.lines.take n)).machine.deque.size
    1 ≤ maxSlots ∧ (∀ n, live s n ≤ 1) ∧
      u.runSource s = (m.runSource s).map (withLimit maxSlots) ∧
      1 < live s' 3 ∧
      ∃ n v, (m.runSource s').RunsOut (u.runSource s')
        (u.run ⟨s'.script.lines.take n, none⟩) 1 n v := by
  intro m u s s' live
  have hle : 1 ≤ maxSlots := by decide
  have hfits : ∀ n, live s n ≤ 1
    | 0 | 1 | 2 | 3 => by decide
    | n + 4 => by
      have hall : s.script.lines.take (n + 4) = s.script.lines :=
        List.take_of_length_le (Nat.le_add_left 4 n)
      simp only [live, hall]
      decide
  have hexceeds : 1 < live s' 3 := by decide
  obtain ⟨n, v, -, -, hruns⟩ := (runSource_withLimit hle .unlimited s').2 ⟨3, hexceeds⟩
  exact ⟨hle, hfits, (runSource_withLimit hle .unlimited s).1 hfits, hexceeds, n, v, hruns⟩

end Machine

end DequeMachine
