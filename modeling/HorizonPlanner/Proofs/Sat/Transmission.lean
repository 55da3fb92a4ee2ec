import HorizonPlanner.Proofs.Sat.Competition
import HorizonPlanner.Proofs.Sat.Narrowing
import HorizonPlanner.Proofs.Text.Cuts
import Mathlib.Data.List.Induction

/-!
# What a program is given to read

A solver that asks a program collects clauses and numbers of variables over any series of requests.
Each question hands the program the text of what was collected before, of which nothing is lost or
read twice, whatever sizes the program reads it in: neither where the preamble ends nor where
nothing was asked for.
-/

namespace HorizonPlanner.Sat

open Text

/-! ### Reading in pieces -/

namespace Source

/-- The source after reads of these sizes. -/
def after (s : Source) : List Nat → Source
  | [] => s
  | n :: rest => (s.read n).2.after rest

/-- What reads of these sizes give, one after the other. -/
def delivered (s : Source) : List Nat → List Char
  | [] => []
  | n :: rest => (s.read n).1 ++ (s.read n).2.delivered rest

variable {s : Source} {n : Nat} {sizes more : List Nat}

/-- A read takes the beginning off what is still to be read. -/
theorem read_append_text (s : Source) (n : Nat) : (s.read n).1 ++ (s.read n).2.text = s.text := by
  unfold read text
  simp only [List.isEmpty_iff]
  split
  · next hnone =>
    -- Either the preamble is read to its end, or nothing was asked for.
    rcases List.take_eq_nil_iff.mp hnone with rfl | hend
    · simp
    · simp [hend]
  · rw [← List.append_assoc, List.take_append_drop]

private theorem length_read_le (s : Source) (n : Nat) : (s.read n).1.length ≤ n := by
  unfold read
  simp only
  split <;> exact List.length_take_le _ _

/-- A read that asks for something gives nothing only at the end. -/
theorem read_eq_nil_iff (hn : 0 < n) : (s.read n).1 = [] ↔ s.text = [] := by
  have htake : ∀ t : List Char, t.take n = [] ↔ t = [] := fun t => by
    rw [List.take_eq_nil_iff, or_iff_right (Nat.ne_of_gt hn)]
  unfold read text
  simp only [List.isEmpty_iff, htake]
  split
  · next hend => simp [hend, htake]
  · next hne => simp [hne, htake]

/-- What was read and what is still to be read are the whole text. -/
theorem delivered_append_text (s : Source) (sizes : List Nat) :
    s.delivered sizes ++ (s.after sizes).text = s.text := by
  induction sizes generalizing s with
  | nil => rfl
  | cons n rest ih => rw [delivered, after, List.append_assoc, ih, read_append_text]

private theorem delivered_append (s : Source) (sizes more : List Nat) :
    s.delivered (sizes ++ more) = s.delivered sizes ++ (s.after sizes).delivered more := by
  induction sizes generalizing s with
  | nil => rfl
  | cons n rest ih => rw [List.cons_append, delivered, ih, delivered, after, List.append_assoc]

private theorem flatten_readPieces (s : Source) (sizes : List Nat) :
    (s.readPieces sizes).flatten = s.text := by
  rw [← delivered_append_text s sizes]
  induction sizes generalizing s with
  | nil => simp [readPieces, delivered, after, text]
  | cons n rest ih => rw [readPieces, List.flatten_cons, ih, delivered, after, List.append_assoc]

/-- Everything was read exactly when nothing is left. -/
theorem delivered_eq_text_iff : s.delivered sizes = s.text ↔ (s.after sizes).text = [] := by
  rw [← delivered_append_text s sizes, List.self_eq_append_right]

/-- Reads that all ask for something come to the end. -/
theorem delivered_eq_text (hpos : ∀ n ∈ sizes, 0 < n) (hlength : s.text.length ≤ sizes.length) :
    s.delivered sizes = s.text := by
  induction sizes generalizing s with
  | nil =>
    rw [List.length_nil, Nat.le_zero, List.length_eq_zero_iff] at hlength
    rw [hlength]
    rfl
  | cons n rest ih =>
    obtain ⟨hn, hrest⟩ := List.forall_mem_cons.mp hpos
    have hread := read_append_text s n
    have hshorter : (s.read n).2.text.length ≤ rest.length := by
      have hsum := congrArg List.length hread
      rw [List.length_append] at hsum
      rw [List.length_cons] at hlength
      by_cases hnil : (s.read n).1 = []
      · have hend := (read_eq_nil_iff hn).mp hnil
        rw [hend, List.length_nil] at hsum
        omega
      · have hsome := List.length_pos_of_ne_nil hnil
        omega
    rw [delivered, ih hrest hshorter, hread]

end Source

/-! ### Requests -/

/-- A request to a solver. -/
inductive Request
  /-- Adds a clause, or makes variables known. -/
  | call (c : Call)
  /-- Sets the limit of time. -/
  | limitTime (limit : Nat)
  /-- Asks for an answer. -/
  | solve
  deriving DecidableEq, Repr

namespace Request

/-- The call among requests, if it is one. -/
def call? : Request → Option Call
  | .call c => some c
  | .limitTime _ | .solve => none

/-- The limit a request sets, if any. -/
def limit? : Request → Option Nat
  | .limitTime limit => some limit
  | .call _ | .solve => none

end Request

/-- The numbers of variables that a call is about. -/
def Call.numbers : Call → List Nat
  | .addClause c => c.map fun l => l.var.number
  | .reserve n => [n]

/-- The largest number of a variable that calls are about, zero if there is none. -/
def largestNumber (calls : List Call) : Nat :=
  (calls.flatMap Call.numbers).foldl max 0

namespace Instance

/-- Carries out a request. A question changes nothing. -/
def handle (i : Instance) : Request → Instance
  | .call c => i.perform c
  | .limitTime limit => i.limitTime limit
  | .solve => i

/-- The instance after these requests. -/
def afterRequests (requests : List Request) : Instance :=
  requests.foldl handle empty

end Instance

section

variable {σ : Type}

/-- Answers requests about an instance one after the other, by asking the program at every
question. -/
def Program.serve (program : Program σ) :
    Instance → List Request → StateM σ (List (Except Violation Answer))
  | _, [] => return []
  | i, .call c :: rest => program.serve (i.handle (.call c)) rest
  | i, .limitTime limit :: rest => program.serve (i.handle (.limitTime limit)) rest
  | i, .solve :: rest => do
    let answer ← program.engine i
    let answers ← program.serve i rest
    return answer :: answers

/-- The program that notes what it is given behind what it was given before. -/
def Program.noted (program : Program σ) : Program (σ × List (Source × Option Nat)) :=
  fun source limit w =>
    let reply := (program source limit).run w.1
    (reply.1, (reply.2, w.2 ++ [(source, limit)]))

/-- What is given to a program that answers requests about an instance. -/
def questions : Instance → List Request → List (Source × Option Nat)
  | _, [] => []
  | i, .call c :: rest => questions (i.handle (.call c)) rest
  | i, .limitTime limit :: rest => questions (i.handle (.limitTime limit)) rest
  | i, .solve :: rest => (.ofInstance i, i.timeLimit) :: questions i rest

variable {calls : List Call} {requests : List Request} {i : Instance}

/-- The program is given the questions, and answers them as if they were not noted. -/
theorem Program.serve_noted_run (program : Program σ) (i : Instance) (requests : List Request)
    (w : σ) (log : List (Source × Option Nat)) :
    (program.noted.serve i requests).run (w, log) =
      (((program.serve i requests).run w).1, ((program.serve i requests).run w).2,
        log ++ questions i requests) := by
  induction requests generalizing i w log with
  | nil =>
    rw [questions, List.append_nil]
    rfl
  | cons r rest ih =>
    cases r with
    | call c => exact ih _ _ _
    | limitTime limit => exact ih _ _ _
    | solve =>
      have hplain : (program.serve i (.solve :: rest)).run w =
          (((program.engine i).run w).1 ::
            ((program.serve i rest).run ((program.engine i).run w).2).1,
            ((program.serve i rest).run ((program.engine i).run w).2).2) := rfl
      have hnoted : (program.noted.serve i (.solve :: rest)).run (w, log) =
          let others := (program.noted.serve i rest).run
            (((program.engine i).run w).2, log ++ [(.ofInstance i, i.timeLimit)])
          (((program.engine i).run w).1 :: others.1, others.2) := rfl
      rw [hplain, hnoted, ih, questions, List.append_assoc, List.singleton_append]

private theorem length_questions (i : Instance) (requests : List Request) :
    (questions i requests).length = requests.count .solve := by
  induction requests generalizing i with
  | nil => rfl
  | cons r rest ih => cases r <;> simp [questions, ih]

private theorem questions_append (i : Instance) (before after : List Request) :
    questions i (before ++ after) = questions i before ++
      questions (before.foldl Instance.handle i) after := by
  induction before generalizing i with
  | nil => rfl
  | cons r before ih => cases r <;> simp [questions, ih, Instance.handle]

/-- A question is about what was collected before it, whatever other questions there are. -/
theorem getElem?_questions (before after : List Request) :
    (questions .empty (before ++ .solve :: after))[before.count .solve]? =
      some (.ofInstance (.afterRequests before), (Instance.afterRequests before).timeLimit) := by
  have hbefore := length_questions .empty before
  rw [questions_append, List.getElem?_append_right hbefore.le, hbefore, Nat.sub_self]
  rfl

namespace Instance

/-- Requests collect what the calls among them do, and the last limit counts. -/
theorem afterRequests_eq (requests : List Request) : afterRequests requests =
    { afterCalls (requests.filterMap Request.call?) with
      timeLimit := (requests.filterMap Request.limit?).getLast? } := by
  induction requests using List.reverseRecOn with
  | nil => rfl
  | append_singleton requests r ih =>
    have hlast : afterRequests (requests ++ [r]) = (afterRequests requests).handle r :=
      List.foldl_concat ..
    rw [hlast, ih, List.filterMap_append, List.filterMap_append]
    cases r with
    | call c =>
      have hcalls : afterCalls (requests.filterMap Request.call? ++ [c]) =
          (afterCalls (requests.filterMap Request.call?)).perform c := List.foldl_concat ..
      simp only [List.filterMap_cons, List.filterMap_nil, Request.call?,
        Request.limit?, List.append_nil, hcalls]
      cases c <;> rfl
    | limitTime limit =>
      simp [handle, limitTime, List.filterMap_cons, Request.call?, Request.limit?]
    | solve => simp [handle, List.filterMap_cons, Request.call?, Request.limit?]

private theorem nVars_afterCalls_eq (calls : List Call) :
    (afterCalls calls).nVars = largestNumber calls := by
  refine eq_of_forall_ge_iff fun n => ?_
  have hwithin : ∀ c : Call, c.Within n ↔ ∀ m ∈ c.numbers, m ≤ n := fun c => by
    cases c <;> simp [Call.Within, Call.numbers]
  have hlargest := foldl_max_le_iff (fun m : Nat => m) (calls.flatMap Call.numbers) 0 n
  rw [nVars_afterCalls_le_iff, largestNumber, hlargest, and_iff_right n.zero_le,
    List.forall_mem_flatMap]
  simp only [hwithin]

/-- The text of an instance is made of ASCII characters. -/
theorem isAscii_dimacs (i : Instance) : ∀ c ∈ i.dimacs, c.toNat < 0x80 := by
  have hnumeral : ∀ n, ∀ c ∈ Numeral.ofNat n, c.toNat < 0x80 := fun n c hc =>
    Numeral.isAscii_of_isDigit (Numeral.isDigit_of_mem_ofNat hc)
  have hpreamble : ∀ c ∈ i.preamble, c.toNat < 0x80 := by
    have htext : "p cnf ".toList = ['p', ' ', 'c', 'n', 'f', ' '] := rfl
    have hword : ∀ c ∈ ['p', ' ', 'c', 'n', 'f', ' '], c.toNat < 0x80 := by simp
    unfold preamble
    rw [htext]
    simp only [List.forall_mem_append, List.forall_mem_singleton]
    exact ⟨⟨⟨⟨hword, hnumeral _⟩, by decide⟩, hnumeral _⟩, by decide⟩
  have hclause : ∀ cl : Clause, ∀ c ∈ cl.dimacs, c.toNat < 0x80 := fun cl c hc => by
    rcases List.mem_append.mp hc with hc | hc
    · obtain ⟨l, -, hc⟩ := List.mem_flatMap.mp hc
      rcases List.mem_append.mp hc with hc | hc
      · exact Numeral.isAscii_of_mem_ofInt hc
      · rw [List.mem_singleton.mp hc]
        decide
    · have hend : ∀ c ∈ ['0', '\n'], c.toNat < 0x80 := by simp
      exact hend c hc
  rw [dimacs, List.forall_mem_append]
  refine ⟨hpreamble, fun c hc => ?_⟩
  obtain ⟨cl, -, hc⟩ := List.mem_flatMap.mp hc
  exact hclause cl c hc

end Instance

/-! ### What a program is given -/

/-- At every question a program is given the clauses added so far and the number of variables known
so far, and it reads their text without loss, whatever it asks for. -/
theorem Program.noted_questions (program : Program σ) (requests : List Request) (w : σ) :
    let run := (program.noted.serve .empty requests).run (w, [])
    run.1 = ((program.serve .empty requests).run w).1 ∧
      run.2.2.length = requests.count .solve ∧
      ∀ before after, requests = before ++ .solve :: after →
        let calls := before.filterMap Request.call?
        ∃ source, run.2.2[before.count .solve]? =
          some (source, (before.filterMap Request.limit?).getLast?) ∧
          source.preamble = "p cnf ".toList ++ Numeral.ofNat (largestNumber calls) ++ [' '] ++
            Numeral.ofNat (addedClauses calls).length ++ ['\n'] ∧
          Dimacs.parse? source.text = some ⟨largestNumber calls, addedClauses calls⟩ ∧
          utf8 source.text = source.text.map (fun c => UInt8.ofNat c.toNat) ∧
          ∀ sizes, (source.readPieces sizes).flatten = source.text ∧
            (∀ n, ((source.after sizes).read n).1.length ≤ n) ∧
            (∀ n, 0 < n → (((source.after sizes).read n).1 = [] ↔
              source.delivered sizes = source.text)) ∧
            ∀ more, (∀ n ∈ more, 0 < n) → source.text.length ≤ more.length →
              source.delivered (sizes ++ more) = source.text := by
  intro run
  have hrun : run = _ := program.serve_noted_run .empty requests w []
  rw [hrun, List.nil_append]
  refine ⟨rfl, length_questions _ _, ?_⟩
  rintro before after rfl calls
  have hnVars : (Instance.afterRequests before).nVars = largestNumber calls := by
    rw [Instance.afterRequests_eq, ← Instance.nVars_afterCalls_eq]
    rfl
  have hclauses : (Instance.afterRequests before).clauses.toList = addedClauses calls := by
    rw [Instance.afterRequests_eq, ← Instance.clauses_afterCalls]
  have hlimit : (Instance.afterRequests before).timeLimit =
      (before.filterMap Request.limit?).getLast? := by
    rw [Instance.afterRequests_eq]
  have hquestion := getElem?_questions before after
  rw [hlimit] at hquestion
  refine ⟨_, hquestion, ?_, ?_, utf8_eq_map (Instance.isAscii_dimacs _), fun sizes => ?_⟩
  · rw [← hnVars, ← hclauses, Array.length_toList]
    rfl
  · rw [← hnVars, ← hclauses]
    exact Dimacs.parse?_dimacs _
  · refine ⟨Source.flatten_readPieces _ _, fun n => Source.length_read_le _ _, fun n hn => ?_,
      fun more hpos hlength => ?_⟩
    · rw [Source.read_eq_nil_iff hn, Source.delivered_eq_text_iff]
    · have hread := Source.delivered_append_text (.ofInstance (.afterRequests before)) sizes
      have hrest : ((Source.ofInstance (.afterRequests before)).after sizes).text.length ≤
          more.length := by
        have hsum := congrArg List.length hread
        rw [List.length_append] at hsum
        omega
      rw [Source.delivered_append, Source.delivered_eq_text hpos hrest, hread]

/-- A clause is kept with its repeated literal, an empty one as well, and the second question is
about all of them. -/
theorem Program.noted_questions_twice :
    let requests := [.call (.reserve 5),
      .call (.addClause [⟨⟨1, by decide⟩, true⟩, ⟨⟨2, by decide⟩, false⟩]), .solve,
      .call (.addClause []), .limitTime 3, .call (.reserve 2),
      .call (.addClause [⟨⟨1, by decide⟩, true⟩, ⟨⟨1, by decide⟩, true⟩]), .solve]
    let silent : Program Unit := fun _ _ => pure []
    ∃ source, ((silent.noted.serve .empty requests).run ((), [])).2.2[1]? = some (source, some 3) ∧
      Dimacs.parse? source.text = some ⟨5, [[⟨⟨1, by decide⟩, true⟩, ⟨⟨2, by decide⟩, false⟩], [],
        [⟨⟨1, by decide⟩, true⟩, ⟨⟨1, by decide⟩, true⟩]]⟩ ∧
      source.delivered ([0, 3, 0, 7, 100] ++ List.replicate source.text.length 1) =
        source.text := by
  intro requests silent
  obtain ⟨-, -, hquestions⟩ := silent.noted_questions requests ()
  obtain ⟨source, hquestion, -, hparse, -, hread⟩ := hquestions (requests.take 7) [] rfl
  refine ⟨source, hquestion, hparse, ?_⟩
  have hones : ∀ n ∈ List.replicate source.text.length 1, 0 < n := fun n hn => by
    rw [List.eq_of_mem_replicate hn]
    exact Nat.one_pos
  exact (hread [0, 3, 0, 7, 100]).2.2.2 _ hones (Nat.le_of_eq List.length_replicate.symm)

end

end HorizonPlanner.Sat
