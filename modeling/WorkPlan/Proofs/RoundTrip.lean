import Mathlib.Tactic
import WorkPlan.Proofs.Restoring
import WorkPlan.Settings.Basic
import WorkPlan.Workflow.Document
import WorkPlan.Workflow.Manifest

/-!
# Records as JSON

A record that is written as a JSON value and read again is the record that was written, as
long as its rates are numbers: JSON has no other floats.  The parts that are left out of a
record are those that have their default.  A value that can be read may be laid out in
another way than a record is written, but reading and writing it once is enough: what comes
out is not changed by doing so again.
-/

namespace WorkPlan

open Json

variable (d : Dialect)

/-! ## Retry rules -/

namespace Retry

/-- The rate is a finite number. -/
def Exact (r : Retry) : Prop := r.backoffRate.isFinite = true

theorem restores
    {r : Retry} (hexact : r.Exact) : Codec.Restores (decode? d) r.encode r := by
  have hattempts :=
    Codec.parts_defaulted "max_attempts" 0 (Codec.restores_word32 r.maxAttempts)
  have hinterval :=
    Codec.parts_defaulted "interval_seconds" 15 (Codec.restores_word64 r.intervalSeconds)
  have hrate :=
    Codec.parts_defaulted "backoff_rate" (.ofInt 4) (Codec.restores_float hexact)
  apply Codec.restores_record (hattempts.append (hinterval.append hrate)) (by decide)
  intro field hfound
  obtain ⟨hattempts, hinterval, hrate⟩ := hfound
  simp only [hattempts, hinterval, hrate]
  rfl

theorem yields_exact : Codec.Yields (decode? d) Exact := by
  apply Codec.yields_record
  intro field hfield r hread
  simp only [Option.bind_eq_bind, Option.bind_eq_some_iff] at hread
  obtain ⟨_, -, _, -, rate, hrate, hr⟩ := hread
  cases hr
  have hdefault : (Binary64.ofInt 4).isFinite = true := Binary64.isFinite_ofInt (by decide)
  exact Codec.yields_float.defaulted (hfield _) hdefault hrate

end Retry

namespace Retrier

def Exact (r : Retrier) : Prop := r.backoffRate.isFinite = true

theorem restores
    {r : Retrier} (hexact : r.Exact) : Codec.Restores (decode? d) r.encode r := by
  have herrors := Codec.parts_required "error_equals" (Codec.restores_texts r.errorEquals)
  have hattempts := Codec.parts_required "max_attempts" (Codec.restores_word32 r.maxAttempts)
  have hinterval :=
    Codec.parts_required "interval_seconds" (Codec.restores_word64 r.intervalSeconds)
  have hrate := Codec.parts_required "backoff_rate" (Codec.restores_float hexact)
  apply Codec.restores_record
    (herrors.append (hattempts.append (hinterval.append hrate))) (by decide)
  intro field hfound
  obtain ⟨herrors, hattempts, hinterval, hrate⟩ := hfound
  simp only [herrors, hattempts, hinterval, hrate]
  rfl

theorem yields_exact : Codec.Yields (decode? d) Exact := by
  apply Codec.yields_record
  intro field hfield r hread
  simp only [Option.bind_eq_bind, Option.bind_eq_some_iff] at hread
  obtain ⟨_, -, _, -, _, -, rate, hrate, hr⟩ := hread
  cases hr
  exact Codec.yields_float.required (hfield _) hrate

end Retrier

/-! ## Deployment data and manifests -/

theorem Dictionary.eq_empty_of_isEmpty
    {α : Type} {map : Dictionary α} (hempty : map.isEmpty = true) : map = ∅ := by
  cases map with
  | mk members sorted =>
      cases List.isEmpty_iff.mp hempty
      rfl

namespace Deployment

theorem parts_environment (m : Deployment) :
    Codec.Parts ["environment"]
      (if m.environment.isEmpty then []
        else [("environment", .table (m.environment.members.map fun e => (e.1, .text e.2)))])
      fun field => Codec.defaulted ∅ (field "environment") Codec.dictionary? =
        some m.environment := by
  by_cases hempty : m.environment.isEmpty
  · rw [if_pos hempty, Dictionary.eq_empty_of_isEmpty hempty]
    apply Codec.parts_absent
    intro field hfield
    rw [hfield]
    rfl
  · rw [if_neg hempty]
    exact Codec.parts_defaulted "environment" ∅ (Codec.restores_dictionary m.environment)

theorem restores (m : Deployment) : Codec.Restores (decode? d) m.encode m := by
  have hmemory := Codec.parts_optional "memory_mb" rfl
    fun n (_ : n ∈ m.memoryMb) => Codec.restores_word32 n
  have htimeout := Codec.parts_optional "timeout_secs" rfl
    fun n (_ : n ∈ m.timeoutSecs) => Codec.restores_word64 n
  have hruntime := Codec.parts_optional "runtime" rfl
    fun s (_ : s ∈ m.runtime) => Codec.restores_text s
  have hpermissions := Codec.parts_unlessEmpty "permissions"
    fun s (_ : s ∈ m.permissions) => Codec.restores_text s
  have hlayers := Codec.parts_unlessEmpty "layers"
    fun s (_ : s ∈ m.layers) => Codec.restores_text s
  have hparts := ((((hmemory.append htimeout).append hruntime).append
    m.parts_environment).append hpermissions).append hlayers
  apply Codec.restores_record hparts (by decide)
  intro field hfound
  obtain ⟨⟨⟨⟨⟨hmemory, htimeout⟩, hruntime⟩, henvironment⟩, hpermissions⟩, hlayers⟩ := hfound
  simp only [Codec.texts?, hmemory, htimeout, hruntime, henvironment, hpermissions, hlayers]
  rfl

end Deployment

namespace Manifest

def Exact (m : Manifest) : Prop := ∀ r ∈ m.retry, r.Exact

theorem restores
    {m : Manifest} (hexact : m.Exact) : Codec.Restores (decode? d) m.encode m := by
  have hname := Codec.parts_required "name" (Codec.restores_text m.name)
  have hdescription := Codec.parts_optional "description" rfl
    fun s (_ : s ∈ m.description) => Codec.restores_text s
  have hwaits := Codec.parts_unlessEmpty "depends_on"
    fun s (_ : s ∈ m.dependsOn) => Codec.restores_text s
  have hretry := Codec.parts_optional "retry" rfl
    fun r (hr : r ∈ m.retry) => Retry.restores d (hexact r hr)
  have hdeployment := Codec.parts_defaulted "metadata" {} (m.deployment.restores d)
  have hparts := (((hname.append hdescription).append hwaits).append hretry).append hdeployment
  apply Codec.restores_record hparts (by decide)
  intro field hfound
  obtain ⟨⟨⟨⟨hname, hdescription⟩, hwaits⟩, hretry⟩, hdeployment⟩ := hfound
  simp only [Codec.texts?, hname, hdescription, hwaits, hretry, hdeployment]
  rfl

theorem yields_exact : Codec.Yields (decode? d) Exact := by
  apply Codec.yields_record
  intro field hfield m hread
  simp only [Option.bind_eq_bind, Option.bind_eq_some_iff] at hread
  obtain ⟨_, -, _, -, _, -, retry, hretry, _, -, hm⟩ := hread
  cases hm
  exact (Retry.yields_exact d).optional (hfield _) hretry

end Manifest

/-! ## Workflow documents -/

theorem InputMode.restores (mode : InputMode) :
    Codec.Restores (decode? d) mode.encode mode := ⟨.string "pass_through", rfl, rfl⟩

namespace Argument

/-- A literal argument has the keys of its objects in order. -/
def Exact : Argument → Prop
  | .literal value => value.Normal
  | .output _ => True

theorem restores
    {argument : Argument} (hexact : argument.Exact) :
    Codec.Restores (decode? d) argument.encode argument := by
  cases argument with
  | literal value =>
      have hvalue := Codec.parts_required "value" (Codec.restores_value hexact)
      apply Codec.restores_tagged hvalue (by decide)
      apply Codec.restores_record hvalue (by decide)
      intro field hfound
      rw [hfound]
      rfl
  | output step =>
      have hstep := Codec.parts_required "step" (Codec.restores_text step)
      apply Codec.restores_tagged hstep (by decide)
      apply Codec.restores_record hstep (by decide)
      intro field hfound
      rw [hfound]
      rfl

theorem yields_exact : Codec.Yields (decode? d) Exact := by
  apply Codec.yields_tagged
  intro label contents argument hread
  simp only [Option.bind_eq_bind, Option.bind_eq_some_iff] at hread
  obtain ⟨place, -, hread⟩ := hread
  split at hread
  next =>
    obtain ⟨field, hfields, value, hvalue, hliteral⟩ := by
      simpa only [Option.bind_eq_some_iff] using hread
    cases hliteral
    exact Codec.yields_value.required (fun t ht => Codec.toTree_of_fields? hfields ht) hvalue
  next =>
    obtain ⟨_, -, step, -, houtput⟩ := by
      simpa only [Option.bind_eq_some_iff] using hread
    cases houtput
    trivial

end Argument

namespace Task

structure Exact (t : Task) : Prop where
  arguments : ∀ argument ∈ t.arguments, argument.Exact
  retry : ∀ r ∈ t.retry, r.Exact

theorem parts
    {t : Task} (hexact : t.Exact) :
    Codec.Parts fieldNames t.entries fun field =>
      ((Codec.required (field "name") Codec.text? = some t.name ∧
        Codec.required (field "target") Codec.text? = some t.target ∧
        Codec.required (field "input_mode") (InputMode.decode? d) = some t.inputMode ∧
        Codec.defaulted [] (field "arguments") (Codec.list? (Argument.decode? d)) =
          some t.arguments) ∧
        Codec.optional (field "retry") (Retrier.decode? d) = some t.retry) ∧
        Codec.optional (field "comment") Codec.text? = some t.comment := by
  have hname := Codec.parts_required "name" (Codec.restores_text t.name)
  have htarget := Codec.parts_required "target" (Codec.restores_text t.target)
  have hmode := Codec.parts_required "input_mode" (InputMode.restores d t.inputMode)
  have harguments := Codec.parts_unlessEmpty "arguments"
    fun argument hargument => Argument.restores d (hexact.arguments argument hargument)
  have hretry := Codec.parts_optional "retry" rfl
    fun r hr => Retrier.restores d (hexact.retry r hr)
  have hcomment := Codec.parts_optional "comment" rfl
    fun s (_ : s ∈ t.comment) => Codec.restores_text s
  exact ((hname.append (htarget.append (hmode.append harguments))).append hretry).append
    hcomment

theorem restores
    {t : Task} (hexact : t.Exact) : Codec.Restores (decode? d) t.encode t := by
  apply Codec.restores_record (parts d hexact) (by decide)
  intro field hfound
  obtain ⟨⟨⟨hname, htarget, hmode, harguments⟩, hretry⟩, hcomment⟩ := hfound
  simp only [hname, htarget, hmode, harguments, hretry, hcomment]
  rfl

theorem yields_exact : Codec.Yields (decode? d) Exact := by
  apply Codec.yields_record
  intro field hfield t hread
  simp only [Option.bind_eq_bind, Option.bind_eq_some_iff] at hread
  obtain ⟨_, -, _, -, _, -, arguments, harguments, retry, hretry, _, -, ht⟩ := hread
  cases ht
  constructor
  · exact (Argument.yields_exact d).list.defaulted (hfield _) (by simp) harguments
  · exact (Retrier.yields_exact d).optional (hfield _) hretry

end Task

namespace Stage

def Exact (stage : Stage) : Prop := ∀ t ∈ stage.tasks, t.Exact

theorem restores
    {stage : Stage} (hexact : stage.Exact) : Codec.Restores (decode? d) stage.encode stage := by
  cases stage with
  | task t =>
      have ht : t.Exact := hexact t (by simp [tasks])
      obtain ⟨v, hv, hread⟩ := Task.restores d.inside ht
      apply Codec.restores_tagged (Task.parts d.inside ht) (by decide)
      refine ⟨v, hv, ?_⟩
      change (Task.decode? d.inside v.toTree).bind _ = _
      rw [hread]
      rfl
  | parallel name branches =>
      have hname := Codec.parts_required "name" (Codec.restores_text name)
      have hbranches := Codec.parts_required "branches"
        (Codec.restores_list fun t ht => Task.restores d.inside (hexact t ht))
      apply Codec.restores_tagged (hname.append hbranches) (by decide)
      apply Codec.restores_record (hname.append hbranches) (by decide)
      intro field hfound
      obtain ⟨hname, hbranches⟩ := hfound
      rw [hname, hbranches]
      rfl

theorem yields_exact : Codec.Yields (decode? d) Exact := by
  apply Codec.yields_tagged
  intro label contents stage hread
  simp only [Option.bind_eq_bind, Option.bind_eq_some_iff] at hread
  obtain ⟨place, -, hread⟩ := hread
  split at hread
  next =>
    obtain ⟨t, ht, hstage⟩ := Option.bind_eq_some_iff.mp hread
    cases hstage
    have hexact := Task.yields_exact d.inside contents t ht
    simpa [Exact, tasks] using hexact
  next =>
    obtain ⟨field, hfields, hread⟩ := Option.bind_eq_some_iff.mp hread
    obtain ⟨_, -, hread⟩ := Option.bind_eq_some_iff.mp hread
    obtain ⟨branches, hbranches, hstage⟩ := Option.bind_eq_some_iff.mp hread
    cases hstage
    exact (Task.yields_exact d.inside).list.required
      (fun t ht => Codec.toTree_of_fields? hfields ht) hbranches

end Stage

namespace Workflow

def Exact (w : Workflow) : Prop := ∀ stage ∈ w.stages, stage.Exact

theorem restores
    {w : Workflow} (hexact : w.Exact) : Codec.Restores (decode? d) w.encode w := by
  have hname := Codec.parts_required "name" (Codec.restores_text w.name)
  have hcomment := Codec.parts_optional "comment" rfl
    fun s (_ : s ∈ w.comment) => Codec.restores_text s
  have hstages := Codec.parts_required "stages"
    (Codec.restores_list fun stage hstage => Stage.restores d (hexact stage hstage))
  apply Codec.restores_record ((hname.append hcomment).append hstages) (by decide)
  intro field hfound
  obtain ⟨⟨hname, hcomment⟩, hstages⟩ := hfound
  simp only [hname, hcomment, hstages]
  rfl

theorem yields_exact : Codec.Yields (decode? d) Exact := by
  apply Codec.yields_record
  intro field hfield w hread
  simp only [Option.bind_eq_bind, Option.bind_eq_some_iff] at hread
  obtain ⟨_, -, _, -, stages, hstages, hw⟩ := hread
  cases hw
  exact (Stage.yields_exact d).list.required (hfield _) hstages

end Workflow

/-! ## Settings -/

theorem CompileSettings.restores (s : CompileSettings) :
    Codec.Restores (decode? d) s.encode s := by
  have hresource := Codec.parts_defaulted "task_resource" ({} : CompileSettings).taskResource
    (Codec.restores_text s.taskResource)
  have herrors := Codec.parts_defaulted "retry_error_equals"
    ({} : CompileSettings).retryErrorEquals (Codec.restores_texts s.retryErrorEquals)
  have hcomment := Codec.parts_optional "comment" rfl
    fun comment (_ : comment ∈ s.comment) => Codec.restores_text comment
  apply Codec.restores_record (hresource.append (herrors.append hcomment)) (by decide)
  intro field hfound
  obtain ⟨hresource, herrors, hcomment⟩ := hfound
  simp only [hresource, herrors, hcomment]
  rfl

theorem LogSettings.restores (s : LogSettings) : Codec.Restores (decode? d) s.encode s := by
  have hfilter := Codec.parts_defaulted "filter" ({} : LogSettings).filter
    (Codec.restores_text s.filter)
  have hlines := Codec.parts_defaulted "json" false (Codec.restores_flag s.jsonLines)
  have hspans := Codec.parts_defaulted "otel" false (Codec.restores_flag s.exportSpans)
  apply Codec.restores_record (hfilter.append (hlines.append hspans)) (by decide)
  intro field hfound
  obtain ⟨hfilter, hlines, hspans⟩ := hfound
  simp only [hfilter, hlines, hspans]
  rfl

theorem Settings.restores (s : Settings) : Codec.Restores (decode? d) s.encode s := by
  have hcompile := Codec.parts_defaulted "compiler" {} (s.compile.restores d)
  have hlog := Codec.parts_defaulted "tracing" {} (s.log.restores d)
  apply Codec.restores_record (hcompile.append hlog) (by decide)
  intro field hfound
  obtain ⟨hcompile, hlog⟩ := hfound
  simp only [hcompile, hlog]
  rfl

/-! ## Round trips -/

namespace Codec

variable {α : Type} {read : Tree → Option α} {encode : α → Tree} {P : α → Prop}

/-- What is written again of a value that is read. -/
def rewrite? (read : Tree → Option α) (encode : α → Tree) (j : Value) : Option Value :=
  read j.toTree >>= fun x => Value.ofTree? (encode x)

/-- Records with `P` come back from JSON, all records that are read in JSON do, and
writing them again lays them out for good. -/
structure RoundTrip (read : Tree → Option α) (encode : α → Tree) (P : α → Prop) : Prop where
  restores : ∀ x, P x → Restores read (encode x) x
  settles : ∀ (j : Value) (x : α), read j.toTree = some x → Restores read (encode x) x
  rewrite_once : ∀ j k : Value, rewrite? read encode j = some k → rewrite? read encode k = some k

theorem roundTrip_of_restores
    (hrestores : ∀ x, P x → Restores read (encode x) x) (hyields : Yields read P) :
    RoundTrip read encode P where
  restores := hrestores
  settles := fun j x hread => hrestores x (hyields j x hread)
  rewrite_once := by
    intro j k hrewrite
    obtain ⟨x, hread, hk⟩ := Option.bind_eq_some_iff.mp hrewrite
    obtain ⟨k', hk', hback⟩ := hrestores x (hyields j x hread)
    obtain rfl := Option.some.inj (hk.symm.trans hk')
    exact Option.bind_eq_some_iff.mpr ⟨x, hback, hk⟩

end Codec

/-- Arguments have the objects of their literals in normal form, which JSON objects always
are; of floats only the rates of retry rules have to be finite. -/
theorem records_round_trip :
    Codec.RoundTrip (Retry.decode? .json) Retry.encode Retry.Exact ∧
      Codec.RoundTrip (Deployment.decode? .json) Deployment.encode (fun _ => True) ∧
      Codec.RoundTrip (Manifest.decode? .json) Manifest.encode Manifest.Exact ∧
      Codec.RoundTrip (Retrier.decode? .json) Retrier.encode Retrier.Exact ∧
      Codec.RoundTrip (Argument.decode? .json) Argument.encode Argument.Exact ∧
      Codec.RoundTrip (Task.decode? .json) Task.encode Task.Exact ∧
      Codec.RoundTrip (Stage.decode? .json) Stage.encode Stage.Exact ∧
      Codec.RoundTrip (Workflow.decode? .json) Workflow.encode Workflow.Exact ∧
      Codec.RoundTrip (CompileSettings.decode? .json) CompileSettings.encode (fun _ => True) ∧
      Codec.RoundTrip (LogSettings.decode? .json) LogSettings.encode (fun _ => True) ∧
      Codec.RoundTrip (Settings.decode? .json) Settings.encode (fun _ => True) := by
  have hretry := Codec.roundTrip_of_restores (fun _ => Retry.restores .json)
    (Retry.yields_exact .json)
  have hdeployment := Codec.roundTrip_of_restores
    (fun m (_ : True) => Deployment.restores .json m) (fun _ _ _ => trivial)
  have hmanifest := Codec.roundTrip_of_restores (fun _ => Manifest.restores .json)
    (Manifest.yields_exact .json)
  have hretrier := Codec.roundTrip_of_restores (fun _ => Retrier.restores .json)
    (Retrier.yields_exact .json)
  have hargument := Codec.roundTrip_of_restores (fun _ => Argument.restores .json)
    (Argument.yields_exact .json)
  have htask := Codec.roundTrip_of_restores (fun _ => Task.restores .json)
    (Task.yields_exact .json)
  have hstage := Codec.roundTrip_of_restores (fun _ => Stage.restores .json)
    (Stage.yields_exact .json)
  have hworkflow := Codec.roundTrip_of_restores (fun _ => Workflow.restores .json)
    (Workflow.yields_exact .json)
  have hcompile := Codec.roundTrip_of_restores
    (fun s (_ : True) => CompileSettings.restores .json s) (fun _ _ _ => trivial)
  have hlog := Codec.roundTrip_of_restores
    (fun s (_ : True) => LogSettings.restores .json s) (fun _ _ _ => trivial)
  have hsettings := Codec.roundTrip_of_restores
    (fun s (_ : True) => Settings.restores .json s) (fun _ _ _ => trivial)
  exact ⟨hretry, hdeployment, hmanifest, hretrier, hargument, htask, hstage, hworkflow,
    hcompile, hlog, hsettings⟩

/-- A list of parts that is read is written as an object. -/
example :
    Codec.rewrite? (Argument.decode? .json) Argument.encode
        (.array [.string "literal", .null]) =
      some (.object [("kind", .string "literal"), ("value", .null)]) := by
  rfl

end WorkPlan
