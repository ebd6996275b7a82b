import Sqi.OpenJD.HostRequirements

/-! Job templates (`model.go`), as far as submission and assignment read them. -/

namespace Sqi

inductive JobParamType where
  | string
  | path
  | int
  | float
  | bool
  | rangeExpr
  | listString
  | listPath
  | listInt
  | listFloat
  | listBool
  | listListInt
  | unknown (text : String)
deriving DecidableEq

def isListParamType : JobParamType → Bool
  | .listString | .listPath | .listInt | .listFloat | .listBool | .listListInt => true
  | _ => false

structure JobParameter where
  name : String
  type : JobParamType
  default : Option String
deriving DecidableEq

structure Action where
  command : String
  args : List String
deriving DecidableEq

inductive EmbeddedFileType where
  | absent | text | other (name : String)
deriving DecidableEq

structure EmbeddedFile where
  name : String
  filename : String
  filenameSet : Bool
  data : String
  type : EmbeddedFileType
  runnable : Bool
  endOfLine : String
deriving DecidableEq

structure EnvironmentScript where
  onEnter : Option Action
  onExit : Option Action
  embeddedFiles : List EmbeddedFile
deriving DecidableEq

structure Environment where
  name : String
  vars : StringMap String
  script : Option EnvironmentScript
deriving DecidableEq

structure StepScript where
  onRun : Action
  embeddedFiles : List EmbeddedFile
deriving DecidableEq

structure StepDependency where
  dependsOn : String
deriving DecidableEq

structure StepTemplate where
  name : String
  script : Option StepScript
  stepEnvironments : List Environment
  parameterSpace : Option StepParameterSpace
  hostRequirements : Option HostRequirements
  dependencies : List StepDependency := []
deriving DecidableEq

structure JobTemplate where
  extensions : List String
  parameterDefinitions : List JobParameter
  jobEnvironments : List Environment
  steps : List StepTemplate
deriving DecidableEq

def JobTemplate.hasExtension (tmpl : JobTemplate) (name : String) : Bool := tmpl.extensions.contains name

end Sqi
