import WorkPlan.Workflow.Retry

/-!
# Deployment data and manifests

A step carries data for its deployment which is passed on and never looked at.  Its manifest is all
of a step but its work, with the steps it waits for given by name.
-/

namespace WorkPlan

/-- What is needed to deploy a step as a function. -/
structure Deployment where
  memoryMb : Option UInt32 := none
  timeoutSecs : Option UInt64 := none
  runtime : Option String := none
  environment : Dictionary String := ∅
  permissions : List String := []
  layers : List String := []

namespace Deployment

def fieldNames : List String :=
  ["memory_mb", "timeout_secs", "runtime", "environment", "permissions", "layers"]

/-- Whatever is absent or empty is left out. -/
def encode (m : Deployment) : Tree :=
  .table
    (Tree.optional "memory_mb" (m.memoryMb.map fun n => .int n.toNat)
      ++ Tree.optional "timeout_secs" (m.timeoutSecs.map fun n => .int n.toNat)
      ++ Tree.optional "runtime" (m.runtime.map .text)
      ++ (if m.environment.isEmpty then []
        else [("environment", .table (m.environment.members.map fun e => (e.1, .text e.2)))])
      ++ Tree.unlessEmpty "permissions" (m.permissions.map .text)
      ++ Tree.unlessEmpty "layers" (m.layers.map .text))

def decode? (d : Dialect) (t : Tree) : Option Deployment := do
  let field ← Codec.fields? d fieldNames t
  let memoryMb ← Codec.optional (field "memory_mb") Codec.word32?
  let timeoutSecs ← Codec.optional (field "timeout_secs") Codec.word64?
  let runtime ← Codec.optional (field "runtime") Codec.text?
  let environment ← Codec.defaulted ∅ (field "environment") Codec.dictionary?
  let permissions ← Codec.defaulted [] (field "permissions") Codec.texts?
  let layers ← Codec.defaulted [] (field "layers") Codec.texts?
  return { memoryMb, timeoutSecs, runtime, environment, permissions, layers }

end Deployment

/-- All of a step but its work. -/
structure Manifest where
  name : String
  description : Option String := none
  dependsOn : List String := []
  retry : Option Retry := none
  deployment : Deployment := {}

namespace Manifest

def fieldNames : List String := ["name", "description", "depends_on", "retry", "metadata"]

def encode (m : Manifest) : Tree :=
  .table
    (("name", .text m.name) :: Tree.optional "description" (m.description.map .text)
      ++ Tree.unlessEmpty "depends_on" (m.dependsOn.map .text)
      ++ Tree.optional "retry" (m.retry.map Retry.encode)
      ++ [("metadata", m.deployment.encode)])

def decode? (d : Dialect) (t : Tree) : Option Manifest := do
  let field ← Codec.fields? d fieldNames t
  let name ← Codec.required (field "name") Codec.text?
  let description ← Codec.optional (field "description") Codec.text?
  let dependsOn ← Codec.defaulted [] (field "depends_on") Codec.texts?
  let retry ← Codec.optional (field "retry") (Retry.decode? d)
  let deployment ← Codec.defaulted {} (field "metadata") (Deployment.decode? d)
  return { name, description, dependsOn, retry, deployment }

end Manifest

end WorkPlan
