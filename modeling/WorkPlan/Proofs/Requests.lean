import Mathlib.Tactic
import WorkPlan.Proofs.Layering

/-!
# Requests to a plan

A plan is asked to take a target rule, to be compiled, to be rendered as a definition and
to be run, any number of times and in any order.  What it says is determined by the plan as
it was built, by the first rule that it was given and, for runs, by the state of the work:
no request that fails leaves a trace, and neither does a rule that comes too late.
-/

namespace WorkPlan

open Json

variable {σ : Type}

namespace Plan

inductive Request
  | setTargets (rule : TargetRule)
  | compile (settings : CompileSettings)
  | compileWith (rule : TargetRule) (settings : CompileSettings)
  | definition (settings : CompileSettings)
  | run
  | runConcurrently (schedule : Schedule)

inductive Reply (σ : Type)
  | targetsSet (result : Except PlanError Unit)
  | compiled (result : Except Unresolved Workflow)
  | defined (result : Except Unresolved Value)
  | ran (run : Run σ RunResult)

/-- A plan in use, and the state of the work of its steps. -/
structure Session (σ : Type) where
  plan : Plan
  state : σ

namespace Session

def serve (c : Catalog) (crew : Crew σ) (s : Session σ) : Request → Reply σ × Session σ
  | .setTargets rule =>
      match s.plan.setTargets rule with
      | .ok plan => (.targetsSet (.ok ()), { s with plan })
      | .error e => (.targetsSet (.error e), s)
  | .compile settings => (.compiled (s.plan.compile c settings), s)
  | .compileWith rule settings => (.compiled (s.plan.compileWith c rule settings), s)
  | .definition settings => (.defined (s.plan.definition c settings), s)
  | .run =>
      let r := s.plan.run c crew s.state
      (.ran r, { s with state := r.journal.state })
  | .runConcurrently schedule =>
      let r := s.plan.runConcurrently c crew schedule s.state
      (.ran r, { s with state := r.journal.state })

/-- The session after requests in turn. -/
def after (c : Catalog) (crew : Crew σ) (s : Session σ) (requests : List Request) : Session σ :=
  requests.foldl (fun s request => (s.serve c crew request).2) s

def replies (c : Catalog) (crew : Crew σ) (s : Session σ) : List Request → List (Reply σ)
  | [] => []
  | request :: rest =>
      (s.serve c crew request).1 :: replies c crew (s.serve c crew request).2 rest

end Session

/-! ## What is said, in view of the requests so far -/

def Request.rule? : Request → Option TargetRule
  | .setTargets rule => some rule
  | _ => none

/-- The rule that was set first. -/
def firstRule? (requests : List Request) : Option TargetRule := requests.findSome? Request.rule?

/-- The reply of a plan as it was built, when the first rule that was set is known. -/
def reply
    (c : Catalog) (crew : Crew σ) (p : Plan) (first? : Option TargetRule) (state : σ) :
    Request → Reply σ
  | .setTargets _ =>
      .targetsSet (if first?.isSome then .error .targetsAlreadySet else .ok ())
  | .compile settings => .compiled (p.compileWith c (first?.getD .stepName) settings)
  | .compileWith rule settings => .compiled (p.compileWith c rule settings)
  | .definition settings =>
      .defined ((p.compileWith c (first?.getD .stepName) settings).map
        (Workflow.definition settings))
  | .run => .ran (p.run c crew state)
  | .runConcurrently schedule => .ran (p.runConcurrently c crew schedule state)

/-- The state of the work after a request: only runs call it. -/
def stateAfter (c : Catalog) (crew : Crew σ) (p : Plan) (state : σ) : Request → σ
  | .run => (p.run c crew state).journal.state
  | .runConcurrently schedule => (p.runConcurrently c crew schedule state).journal.state
  | _ => state

variable {c : Catalog} {crew : Crew σ} {p : Plan} {first? : Option TargetRule} {state : σ}

namespace Session

theorem serve_eq (request : Request) :
    serve c crew ⟨{ p with targets := first? }, state⟩ request =
      (p.reply c crew first? state request,
        ⟨{ p with targets := first?.or request.rule? }, p.stateAfter c crew state request⟩) := by
  cases request with
  | setTargets rule => cases first? <;> rfl
  | compile settings | compileWith rule settings | definition settings | run
  | runConcurrently schedule => cases first? <;> rfl

theorem replies_length (s : Session σ) (requests : List Request) :
    (s.replies c crew requests).length = requests.length := by
  induction requests generalizing s with
  | nil => rfl
  | cons request rest ih => rw [replies, List.length_cons, ih, List.length_cons]

theorem replies_getElem?
    (s : Session σ) (before : List Request) (request : Request) (later : List Request) :
    (s.replies c crew (before ++ request :: later))[before.length]? =
      some ((s.after c crew before).serve c crew request).1 := by
  induction before generalizing s with
  | nil => rfl
  | cons first before ih =>
      rw [List.cons_append, replies, List.length_cons, List.getElem?_cons_succ, ih]
      rfl

/-- The plan stays as it was built, but for the first rule that is set. -/
theorem after_eq (requests : List Request) :
    after c crew ⟨{ p with targets := first? }, state⟩ requests =
      ⟨{ p with targets := first?.or (firstRule? requests) },
        requests.foldl (p.stateAfter c crew) state⟩ := by
  induction requests generalizing first? state with
  | nil => cases first? <;> rfl
  | cons request rest ih =>
      have hrest : after c crew ⟨{ p with targets := first?.or request.rule? },
          p.stateAfter c crew state request⟩ rest = _ := ih
      rw [after, List.foldl_cons, serve_eq]
      refine hrest.trans ?_
      rw [Option.or_assoc]
      cases hrule : request.rule? <;> simp [firstRule?, hrule]

end Session

theorem build_targets {name : String} {roots : List Nat} (hplan : build c name roots = .ok p) :
    p.targets = none := by
  rw [build_eq] at hplan
  obtain ⟨graph, -, rfl⟩ := Except.map_eq_ok_iff.mp hplan
  rfl

theorem after_of_build
    {name : String} {roots : List Nat} (hplan : build c name roots = .ok p) (crew : Crew σ)
    (state : σ) (requests : List Request) :
    Session.after c crew ⟨p, state⟩ requests =
      ⟨{ p with targets := firstRule? requests },
        requests.foldl (p.stateAfter c crew) state⟩ := by
  have hfresh : p = { p with targets := none } := by
    rw [← build_targets hplan]
  have hafter : Session.after c crew ⟨{ p with targets := none }, state⟩ requests = _ :=
    Session.after_eq requests
  rwa [← hfresh] at hafter

/-- A plan that is built answers every request as if it came right after the first rule was
set: a rule is taken if it is the first one, and what is compiled for the plan is what is
compiled with this rule given, or with step names as targets while there is none.  Its
layers, steps and manifests never change, and a rule that is refused changes nothing. -/
theorem replies_as_built
    {name : String} {roots : List Nat} (hplan : build c name roots = .ok p) (crew : Crew σ)
    (state : σ) (requests : List Request) :
    ((Session.after c crew ⟨p, state⟩ requests).plan.layers = p.layers ∧
      (Session.after c crew ⟨p, state⟩ requests).plan.steps = p.steps ∧
      (Session.after c crew ⟨p, state⟩ requests).plan.manifests c = p.manifests c ∧
      (Session.after c crew ⟨p, state⟩ requests).plan =
        { p with targets := firstRule? requests }) ∧
    (Session.replies c crew ⟨p, state⟩ requests).length = requests.length ∧
    ∀ before request later, requests = before ++ request :: later →
      (Session.replies c crew ⟨p, state⟩ requests)[before.length]? =
        some (p.reply c crew (firstRule? before) (before.foldl (p.stateAfter c crew) state)
          request) ∧
      ∀ rule, request = .setTargets rule → (firstRule? before).isSome →
        Session.after c crew ⟨p, state⟩ (before ++ [request]) =
          Session.after c crew ⟨p, state⟩ before := by
  refine ⟨?_, Session.replies_length _ requests, ?_⟩
  · rw [after_of_build hplan]
    exact ⟨rfl, rfl, rfl, rfl⟩
  · rintro before request later rfl
    constructor
    · rw [Session.replies_getElem?, after_of_build hplan, Session.serve_eq]
    · rintro rule rfl hset
      obtain ⟨first, hfirst⟩ := Option.isSome_iff_exists.mp hset
      have hsame : firstRule? (before ++ [.setTargets rule]) = firstRule? before := by
        rw [firstRule?, List.findSome?_append, ← firstRule?, hfirst, Option.some_or]
      rw [after_of_build hplan, after_of_build hplan, hsame, List.foldl_append]
      rfl

/-- A compilation that fails and a run come before the rule that counts, a rule that is
refused and another run after it. -/
def diamondRequests : List Request :=
  [.compileWith (.registered ∅) {}, .run, .setTargets (.substituting "" "fn-"),
    .setTargets .stepName, .run, .compile {}]

theorem replies_as_built_diamond :
    build diamond "diamond" [3] = .ok diamondPlan ∧
    diamondPlan.compileWith diamond (.registered ∅) {} =
      .error ⟨"load", "no deployed target registered"⟩ ∧
    (Session.replies diamond diamond.crew ⟨diamondPlan, []⟩ diamondRequests)[3]? =
      some (.targetsSet (.error .targetsAlreadySet)) ∧
    (Session.replies diamond diamond.crew ⟨diamondPlan, []⟩ diamondRequests)[5]? =
      some (.compiled (diamondPlan.compileWith diamond (.substituting "" "fn-") {})) := by
  have hreplies := (replies_as_built build_diamond diamond.crew [] diamondRequests).2.2
  refine ⟨build_diamond, by cbv, ?_, ?_⟩
  · exact (hreplies [_, _, _] _ [_, _] rfl).1
  · exact (hreplies [_, _, _, _, _] _ [] rfl).1

end Plan

end WorkPlan
