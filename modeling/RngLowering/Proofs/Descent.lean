import Mathlib.Data.Multiset.DershowitzManna
import RngLowering.Proofs.Worklist

/-!
Conversions that come to an end. Names of operations have ranks, and every rewrite trades an operation
for ones of lower rank, as many as it likes. Then the ranks of what is waiting descend in the multiset
order with every rewrite. Between two rewrites a run can only go through its queue and start one more
round, so that it ends.
-/

set_option autoImplicit false

namespace RngLowering

/-- A multiset descends if it has fewer members of some rank and no more of any rank above it. -/
theorem isDershowitzMannaLT_of_count {M N : Multiset Nat} {r : Nat} (fewer : M.count r < N.count r)
    (above : ∀ k, r < k → M.count k ≤ N.count k) : M.IsDershowitzMannaLT N := by
  have lost : r ∈ N - M := by
    rw [← Multiset.count_pos, Multiset.count_sub]
    omega
  refine ⟨M ∩ N, M - N, N - M, ?_, ?_, ?_, ?_⟩
  · rintro none
    rw [none] at lost
    exact Multiset.notMem_zero r lost
  · rw [add_comm, Multiset.sub_add_inter]
  · rw [add_comm, Multiset.inter_comm, Multiset.sub_add_inter]
  · intro k gained
    rw [← Multiset.count_pos, Multiset.count_sub] at gained
    refine ⟨r, lost, ?_⟩
    by_contra high
    by_cases same : k = r
    · subst same
      omega
    · have bound := above k (by omega)
      omega

/-- From `p` to `q` the operation `op` at `root` goes or gets a name of lower rank, whatever is new has
a lower rank than `op`, and no other operation gets another name. -/
structure Program.Descends (rank : String → Nat) (p : Program) (root : OpId) (op : Op) (q : Program) :
    Prop where
  lowered : ∀ left, q.op? root = some left → rank left.name < rank op.name
  created : ∀ id made, p.op? id = none → q.op? id = some made → rank made.name < rank op.name
  others : ∀ id old kept, id ≠ root → p.op? id = some old → q.op? id = some kept →
    kept.name = old.name

/-- Where the rule applies and succeeds on a program with a property, it descends and keeps the
property. -/
def Rule.Descends (rule : Rule) (rank : String → Nat) (holds : Program → Prop) : Prop :=
  ∀ p id op, holds p → p.op? id = some op → op.name = rule.root → rule.applies p id = true →
    ∀ events q, rule.apply id p = .ok events q → holds q ∧ p.Descends rank id op q

def Program.rank? (p : Program) (rank : String → Nat) (id : OpId) : Option Nat :=
  (p.op? id).map fun op => rank op.name

section

variable {p q : Program} {rank : String → Nat} {root id : OpId} {op : Op} {k : Nat}

theorem Program.rank?_of_op? (found : p.op? id = some op) : p.rank? rank id = some (rank op.name) := by
  rw [rank?, found, Option.map_some]

theorem Program.rank?_of_none (dead : p.op? id = none) : p.rank? rank id = none := by
  rw [rank?, dead, Option.map_none]

/-- What has at least the rank of the operation that was rewritten is another one, and had that rank
before. -/
theorem Program.Descends.rank?_eq (descends : p.Descends rank root op q) (high : rank op.name ≤ k)
    (ranked : q.rank? rank id = some k) : id ≠ root ∧ p.rank? rank id = some k := by
  obtain ⟨kept, here, isRank⟩ := Option.map_eq_some_iff.mp ranked
  have apart : id ≠ root := by
    rintro rfl
    have lower := descends.lowered kept here
    omega
  refine ⟨apart, ?_⟩
  cases before : p.op? id with
  | none =>
    have lower := descends.created id kept before here
    omega
  | some old =>
    rw [rank?_of_op? before, ← descends.others id old kept apart before here, isRank]

end

/-- An edit in progress of the program `p`: the program is well-formed, none but `root` has got another
kind, and what is new has a rank below a bound. -/
structure Program.Lowers (rank : String → Nat) (bound : Nat) (p : Program) (root : OpId) (q : Program) :
    Prop where
  wellFormed : q.WellFormed
  converts : p.ConvertsOnly root q
  low : ∀ id made, p.ops.size ≤ id → q.op? id = some made → rank made.name < bound

namespace Program.Lowers

variable {rank : String → Nat} {bound : Nat} {p q r : Program} {root : OpId} {op : Op}

theorem refl (wf : p.WellFormed) : p.Lowers rank bound root p where
  wellFormed := wf
  converts := .refl p root
  low := by
    intro id made new found
    rw [op?_eq_none_of_le new] at found
    cases found

theorem insert (lowers : p.Lowers rank bound root q) {parent : Option OpId} {index : Nat} {made : Op}
    {types : List Ty} {id : OpId} (leaf : made.IsLeaf) (below : rank made.name < bound)
    (inserted : q.insert parent index made types = .ok (id, r)) : p.Lowers rank bound root r where
  wellFormed := lowers.wellFormed.insert leaf.1 leaf.2 inserted
  converts := lowers.converts.trans (.insert inserted)
  low := by
    intro other kept new found
    cases held : q.region parent with
    | error reason => simp [Program.insert, held] at inserted
    | ok region =>
      rw [insert_eq held] at inserted
      cases inserted
      by_cases last : other = q.ops.size
      · subst last
        rw [inserted, op?_modifyRegion, if_neg (ne_of_region held), op?_append, if_pos rfl] at found
        cases found
        exact below
      · obtain ⟨old, here, more, rfl⟩ := op?_of_inserted found last
        exact lowers.low other old new here

/-- Erasing or replacing an operation adds nothing. -/
theorem trans_of_size (lowers : p.Lowers rank bound root q) (wf : r.WellFormed)
    (converts : q.ConvertsOnly root r) (same : r.ops.size = q.ops.size) (old : root < p.ops.size) :
    p.Lowers rank bound root r where
  wellFormed := wf
  converts := lowers.converts.trans converts
  low := by
    intro id made new found
    have inside : id < q.ops.size := same ▸ op?_lt found
    have apart : id ≠ root := by
      rintro rfl
      exact Nat.not_lt_of_le new old
    obtain ⟨before, here, kind⟩ := converts.kinds id made inside apart found
    rw [Op.name, ← kind]
    exact lowers.low id before new here

/-- If the root has gone or has got a name of lower rank in the end, the edit descends. -/
theorem descends (lowers : p.Lowers rank (rank op.name) root q) (found : p.op? root = some op)
    (lowered : ∀ left, q.op? root = some left → rank left.name < rank op.name) :
    p.Descends rank root op q := by
  refine ⟨lowered, ?_, ?_⟩
  · intro id made dead here
    by_cases new : p.ops.size ≤ id
    · exact lowers.low id made new here
    · have apart : id ≠ root := by
        rintro rfl
        rw [found] at dead
        cases dead
      obtain ⟨old, foundOld, -⟩ := lowers.converts.kinds id made (Nat.lt_of_not_le new) apart here
      rw [dead] at foundOld
      cases foundOld
  · intro id old kept apart foundOld here
    obtain ⟨again, foundAgain, same⟩ :=
      lowers.converts.kinds id kept (op?_lt foundOld) apart here
    rw [foundOld] at foundAgain
    cases foundAgain
    exact congrArg OpKind.name same.symm

/-- So it is if the root is replaced in the end. -/
theorem descends_replace (lowers : p.Lowers rank (rank op.name) root q) (found : p.op? root = some op)
    {values : List ValueId} (done : q.replace root values = .ok r) :
    r.WellFormed ∧ p.Descends rank root op r := by
  have wf := lowers.wellFormed.replace done
  refine ⟨wf, ?_⟩
  have last := lowers.trans_of_size wf (.replace done) (size_ops_replace done) (op?_lt found)
  apply last.descends found
  intro left here
  rw [lowers.wellFormed.op?_replace_self done] at here
  cases here

end Program.Lowers

namespace Rule

variable (name root : String) {rank : String → Nat}

theorem Descends.whileAbsent {rule : Rule} {holds : Program → Prop} (descends : rule.Descends rank holds) :
    (rule.whileAbsent name).Descends rank holds := by
  intro p id op held found named applies
  exact descends p id op held found named (Bool.and_eq_true_iff.mp applies).1

theorem descends_never (holds : Program → Prop) : (never name root).Descends rank holds := by
  intro p id op _ _ _ applies
  cases applies

theorem descends_refuse (reason : String) (holds : Program → Prop) :
    (refuse name root reason).Descends rank holds := by
  intro p id op _ _ _ _ events q done
  cases done

theorem descends_rename {new : String} (lower : rank new < rank root) :
    (rename name root new).Descends rank Program.WellFormed := by
  rintro p id op wf found rfl _ events q done
  cases done
  have wfAfter := wf.setKind id (.bare new)
  refine ⟨wfAfter, ?_⟩
  have start : p.Lowers rank (rank op.name) id p := .refl wf
  have lowers := start.trans_of_size wfAfter (.setKind p id (.bare new)) (by simp [Program.setKind])
    (Program.op?_lt found)
  apply lowers.descends found
  intro left here
  rw [Program.setKind, Program.op?_modifyOp, if_pos rfl, found] at here
  cases here
  exact lower

theorem descends_erase : (erase name root).Descends rank Program.WellFormed := by
  rintro p id op wf found rfl _ events q done
  obtain ⟨_, _, ran, ⟨⟩⟩ := seq_eq_ok.mp done
  obtain ⟨old, erased⟩ := Edit.erase_of_ok ran
  have wfAfter := wf.erase erased
  refine ⟨wfAfter, ?_⟩
  have start : p.Lowers rank (rank op.name) id p := .refl wf
  have lowers := start.trans_of_size wfAfter (.erase erased) (Program.size_ops_erase erased)
    (Program.op?_lt found)
  apply lowers.descends found
  intro left here
  rw [wf.op?_erase_self erased] at here
  cases here

theorem descends_double (lower : rank OpKind.addi.name < rank root) :
    (double name root).Descends rank Program.WellFormed := by
  rintro p id op wf found rfl _ events q done
  obtain ⟨_, _, ⟨⟩, done⟩ := seq_eq_ok.mp done
  cases first : op.operands.head? with
  | none =>
    rw [found, Option.bind_some, first] at done
    cases done
  | some value =>
    rw [found, Option.bind_some, first] at done
    obtain ⟨sum, between, built, done⟩ := seq_eq_ok.mp done
    obtain ⟨_, _, ran, ⟨⟩⟩ := seq_eq_ok.mp done
    have keeps : (Build.addi value value).Keeps (p.Lowers rank (rank op.name) id) := by
      refine (Build.keeps_typeOf value).bind fun ty => Build.keeps_insertValue_kind ?_ _ _
      intro q r parent index made types new lowers leaf kind inserted
      exact lowers.insert leaf (by rwa [Op.name, kind]) inserted
    have lowers := Edit.holds_buildBefore keeps (.refl wf) built
    exact lowers.descends_replace found (Edit.replace_of_ok ran)

theorem descends_expand {names : List String} (lower : ∀ new ∈ names, rank new < rank root) :
    (expand name root names).Descends rank Program.WellFormed := by
  rintro p id op wf found rfl _ events q done
  obtain ⟨_, _, ⟨⟩, done⟩ := seq_eq_ok.mp done
  rw [found] at done
  obtain ⟨values, between, built, done⟩ := seq_eq_ok.mp done
  obtain ⟨_, _, ran, ⟨⟩⟩ := seq_eq_ok.mp done
  have keeps : ∀ types : List Ty,
      (buildChain types names op.operands).Keeps (p.Lowers rank (rank op.name) id) := by
    intro types
    apply keeps_buildChain
    intro q r parent index made types new lowers leaf named inserted
    exact lowers.insert leaf (lower made.name named) inserted
  have lowers := Edit.holds_buildBefore (keeps _) (.refl wf) built
  exact lowers.descends_replace found (Edit.replace_of_ok ran)

end Rule

namespace Conversion

/-- The ranks of the operations that are waiting, in the queue or among what was put off. -/
def State.ranks (rank : String → Nat) (s : State) : Multiset Nat :=
  ((s.queue ++ s.pending).filterMap (s.program.rank? rank) : List Nat)

theorem State.count_ranks (rank : String → Nat) (s : State) (k : Nat) :
    (s.ranks rank).count k =
      (s.queue ++ s.pending).countP fun id => s.program.rank? rank id == some k := by
  rw [ranks, Multiset.coe_count, List.count_filterMap]

/-- The state `next` is below `s`: its ranks descend, or they stay and it has lost its progress, or that
stays too and its queue is shorter. -/
def State.Below (rank : String → Nat) (next s : State) : Prop :=
  Prod.Lex Multiset.IsDershowitzMannaLT (Prod.Lex (· < ·) (· < ·))
    (next.ranks rank, next.progress.toNat, next.queue.length)
    (s.ranks rank, s.progress.toNat, s.queue.length)

theorem State.wellFounded_below (rank : String → Nat) : WellFounded (State.Below rank) :=
  InvImage.wf (fun s : State => (s.ranks rank, s.progress.toNat, s.queue.length))
    (Multiset.wellFounded_isDershowitzMannaLT.prod_lex (Nat.lt_wfRel.wf.prod_lex Nat.lt_wfRel.wf))

/-- Without a new rank, a state is below another one as soon as it has lost progress or queue. -/
theorem State.below_of_le {rank : String → Nat} {next s : State}
    (ranks : ∀ k, (next.ranks rank).count k ≤ (s.ranks rank).count k)
    (less : Prod.Lex (· < ·) (· < ·) (next.progress.toNat, next.queue.length)
      (s.progress.toNat, s.queue.length)) : next.Below rank s := by
  rw [Below, Prod.lex_def]
  dsimp only
  by_cases same : next.ranks rank = s.ranks rank
  · exact Or.inr ⟨same, less⟩
  · left
    obtain ⟨r, differs⟩ : ∃ r, (next.ranks rank).count r ≠ (s.ranks rank).count r := by
      by_contra none
      apply same
      apply Multiset.ext.mpr
      simpa using none
    apply isDershowitzMannaLT_of_count (r := r)
    · have bound := ranks r
      omega
    · intro k _
      exact ranks k

namespace Plan

variable {plan : Plan} {s next : State} {rank : String → Nat}

/-- A rewrite that descends adds nothing that has the rank of its root, or more, to what is waiting. -/
theorem count_ranks_account_le {id : OpId} {op : Op} {q : Program}
    (descends : s.program.Descends rank id op q) (log : List Event) {k : Nat} (high : rank op.name ≤ k) :
    ((plan.account s id q log).ranks rank).count k ≤ (s.ranks rank).count k := by
  have waiting := waiting_account plan s id q log
  rw [State.count_ranks, State.count_ranks]
  simp only [account] at waiting ⊢
  rw [waiting.countP_eq, List.countP_append, List.countP_append]
  have root : (if q.isLive id = true then [id] else []).countP
      (fun other => q.rank? rank other == some k) = 0 := by
    rw [List.countP_eq_zero]
    intro other mem
    split at mem
    · rw [List.mem_singleton.mp mem, beq_iff_eq]
      intro ranked
      exact (descends.rank?_eq high ranked).1 rfl
    · cases mem
  have created : ((q.createdSince s.program.ops.size).filter (plan.needs q)).countP
      (fun other => q.rank? rank other == some k) = 0 := by
    rw [List.countP_eq_zero]
    intro other mem
    rw [beq_iff_eq]
    intro ranked
    have new := (mem_created.mp mem).1
    have old := (descends.rank?_eq high ranked).2
    rw [Program.rank?_of_none (Program.op?_eq_none_of_le new)] at old
    cases old
  have kept : (s.queue ++ s.pending).countP (fun other => q.rank? rank other == some k) ≤
      (s.queue ++ s.pending).countP fun other => s.program.rank? rank other == some k := by
    apply List.countP_mono_left
    intro other _ ranked
    rw [beq_iff_eq] at ranked ⊢
    exact (descends.rank?_eq high ranked).2
  rw [root, created]
  omega

/-- A rewrite that descends takes the rank of its root off what is waiting. What it adds has lower
ranks. -/
theorem below_account {id : OpId} {rest : List OpId} {op : Op} {q : Program}
    (queue : s.queue = id :: rest) (found : s.program.op? id = some op)
    (descends : s.program.Descends rank id op q) (events : Array Event) (log : List Event) :
    (plan.account { s with queue := rest, events } id q log).Below rank s := by
  have before : ∀ k, (s.ranks rank).count k =
      (State.ranks rank { s with queue := rest, events }).count k + if rank op.name = k then 1 else 0 := by
    intro k
    rw [State.count_ranks, State.count_ranks, queue, List.cons_append, List.countP_cons,
      Program.rank?_of_op? found]
    simp
  have bound : ∀ k, rank op.name ≤ k →
      ((plan.account { s with queue := rest, events } id q log).ranks rank).count k ≤
        (State.ranks rank { s with queue := rest, events }).count k :=
    fun k => count_ranks_account_le (s := { s with queue := rest, events }) descends log
  apply Prod.Lex.left
  apply isDershowitzMannaLT_of_count (r := rank op.name)
  · have upTo := bound (rank op.name) (Nat.le_refl _)
    rw [before, if_pos rfl]
    omega
  · intro k high
    have upTo := bound k (Nat.le_of_lt high)
    rw [before]
    omega

/-- Every step that does not end the run leads below. -/
theorem below_of_stepped {holds : Program → Prop}
    (rules : ∀ rule ∈ plan.rules, rule.Descends rank holds) (initial : holds s.program)
    (taken : plan.Stepped s (.inl next)) : next.Below rank s := by
  cases taken with
  | @gone id rest queue dead =>
    apply State.below_of_le
    · intro k
      rw [State.count_ranks, State.count_ranks, queue, List.cons_append, List.countP_cons]
      exact Nat.le_add_right _ _
    · apply Prod.Lex.right
      rw [queue]
      exact Nat.lt_succ_self _
  | @putOff id rest op events queue found unruled =>
    have same : (rest ++ (s.pending ++ [id])).Perm (s.queue ++ s.pending) := by
      rw [queue, ← List.append_assoc]
      exact List.perm_append_singleton id _
    apply State.below_of_le
    · intro k
      rw [State.count_ranks, State.count_ranks]
      exact Nat.le_of_eq (same.countP_eq _)
    · apply Prod.Lex.right
      rw [queue]
      exact Nat.lt_succ_self _
  | @rewritten id rest op rule news log events q queue found first succeeds =>
    obtain ⟨mem, named, applies⟩ := RuleSet.find?_eq_some first
    have descends := (rules rule mem _ id op initial found named.symm applies news q succeeds).2
    exact below_account queue found descends events log
  | again queue progress =>
    apply State.below_of_le
    · intro k
      rw [State.count_ranks, State.count_ranks, queue, List.append_nil, List.nil_append]
      exact List.Sublist.countP_le List.filter_sublist
    · apply Prod.Lex.left
      rw [progress]
      exact Nat.zero_lt_one

theorem holds_of_stepped {holds : Program → Prop}
    (rules : ∀ rule ∈ plan.rules, rule.Descends rank holds) (initial : holds s.program)
    (taken : plan.Stepped s (.inl next)) : holds next.program := by
  cases taken with
  | gone queue dead => exact initial
  | putOff queue found unruled => exact initial
  | @rewritten id rest op rule news log events q queue found first succeeds =>
    obtain ⟨mem, named, applies⟩ := RuleSet.find?_eq_some first
    exact (rules rule mem _ id op initial found named.symm applies news q succeeds).1
  | again queue progress => exact initial

/-- A run with rules that descend ends after some number of steps, and more steps change nothing. -/
theorem exists_run {holds : Program → Prop} (rules : ∀ rule ∈ plan.rules, rule.Descends rank holds)
    (initial : holds s.program) :
    ∃ fuel verdict final, verdict ≠ .exhausted ∧
      ∀ more, plan.run (fuel + more) s = (verdict, final) := by
  induction s using (State.wellFounded_below rank).induction with
  | _ s ih =>
    have taken := plan.stepped s
    cases stepped : plan.step s with
    | inl next =>
      rw [stepped] at taken
      obtain ⟨fuel, verdict, final, ended, ran⟩ :=
        ih next (below_of_stepped rules initial taken) (holds_of_stepped rules initial taken)
      refine ⟨fuel + 1, verdict, final, ended, fun more => ?_⟩
      rw [Nat.add_right_comm, run, stepped]
      exact ran more
    | inr result =>
      rw [stepped] at taken
      refine ⟨1, result.1, result.2, ?_, fun more => ?_⟩
      · cases taken <;> simp
      · rw [Nat.add_comm, run, stepped]

/-- With rules that descend every conversion ends: it succeeds, or gets stuck, or a rule fails. What
holds of the programs on which the rules descend can be anything that they keep, such as that the
program is well-formed, or nothing at all. -/
theorem run_start_ends (plan : Plan) {p : Program} {rank : String → Nat} {holds : Program → Prop}
    (rules : ∀ rule ∈ plan.rules, rule.Descends rank holds) (initial : holds p) :
    ∃ fuel verdict final, (∀ more, plan.run (fuel + more) (plan.start p) = (verdict, final)) ∧
      ((∃ report, verdict = .done report) ∨
        (∃ remaining applied, verdict = .failed (.stuck remaining applied)) ∨
        ∃ rule ∈ plan.rules, ∃ id before reason,
          rule.apply id before = .error reason final.program ∧ verdict = .failed reason) := by
  obtain ⟨fuel, verdict, final, ended, ran⟩ := exists_run (s := plan.start p) rules initial
  refine ⟨fuel, verdict, final, ran, ?_⟩
  have kept : ∀ s next, holds s.program → plan.Stepped s (.inl next) → holds next.program :=
    fun _ _ held => holds_of_stepped rules held
  obtain ⟨last, -, -, taken, -⟩ := exists_last kept initial ended (ran 0)
  cases taken with
  | done queue converted left => exact .inl ⟨_, rfl⟩
  | stuck queue idle left => exact .inr (.inl ⟨_, _, rfl⟩)
  | failed queue found first fails left =>
    obtain ⟨mem, -, -⟩ := RuleSet.find?_eq_some first
    exact .inr (.inr ⟨_, mem, _, _, _, left ▸ fails, rfl⟩)

/-- An operation becomes a chain of two, each of which becomes a sum. Another one waits for one that is
renamed, after which no rule applies to that one. A third is erased, and a fourth would be refused. -/
theorem run_start_ends_chain :
    let i64 : Ty := .int ⟨64, .signless⟩
    let test (name : String) (operands : List ValueId) : Request :=
      .push (some 0) { kind := .bare name, operands } rfl [i64]
    let p := Request.reach "in" [.addFunction "main" [i64] none, test "test.quad" [0],
      test "test.late" [1], test "test.old" [2], test "test.drop" [3]]
    let rank (name : String) : Nat :=
      if name = "test.quad" then 2
      else if name ∈ ["test.double", "test.late", "test.old"] then 1 else 0
    let plan : Plan := ⟨({} : Target).markDialect "func" .legal,
      [Rule.expand "quad" "test.quad" ["test.double", "test.double"], Rule.double "double" "test.double",
        (Rule.rename "late" "test.late" "test.done").whileAbsent "test.old",
        Rule.rename "old" "test.old" "test.new", Rule.never "new" "test.new",
        Rule.erase "drop" "test.drop", Rule.refuse "bad" "test.bad" "not allowed"], .full⟩
    (∀ rule ∈ plan.rules, rule.Descends rank Program.WellFormed) ∧ p.WellFormed ∧
      ∃ fuel verdict final, (∀ more, plan.run (fuel + more) (plan.start p) = (verdict, final)) ∧
        ((∃ report, verdict = .done report) ∨
          (∃ remaining applied, verdict = .failed (.stuck remaining applied)) ∨
          ∃ rule ∈ plan.rules, ∃ id before reason,
            rule.apply id before = .error reason final.program ∧ verdict = .failed reason) := by
  intro i64 test p rank plan
  have rules : ∀ rule ∈ plan.rules, rule.Descends rank Program.WellFormed := by
    simp only [plan, List.forall_mem_cons]
    refine ⟨Rule.descends_expand _ _ ?_, Rule.descends_double _ _ ?_,
      (Rule.descends_rename _ _ ?_).whileAbsent _, Rule.descends_rename _ _ ?_,
      Rule.descends_never _ _ _, Rule.descends_erase _ _, Rule.descends_refuse _ _ _ _,
      List.forall_mem_nil _⟩
    · simp [rank]
    · simp [rank, OpKind.name]
    · simp [rank]
    · simp [rank]
  exact ⟨rules, Program.wellFormed_reach _ _ rfl, run_start_ends plan rules (Program.wellFormed_reach _ _ rfl)⟩

end Plan

end Conversion

end RngLowering
