import NativeBindings.Declaration

set_option autoImplicit false
set_option relaxedAutoImplicit false

/-!
The categories that output modules are divided into.
-/

namespace NativeBindings

inductive Category where
  | neuralNet
  | legacy
  | native
  | factory
  deriving DecidableEq

namespace Category

def all : List Category := [neuralNet, legacy, native, factory]

def admits (c : Category) (d : Declaration) : Bool :=
  match c with
  | neuralNet => d.mode == .nn && d.isMethodOfAny ["Type", "namespace"]
  | legacy => d.mode == .th && d.isMethodOfAny ["Type", "namespace"]
  | native => d.mode == .native && d.isMethodOf "namespace"
  | factory => d.mode == .native && d.isMethodOf "namespace" && d.isFactory

def word : Category → String
  | neuralNet => "NeuralNet"
  | legacy => "Legacy"
  | native => "Native"
  | factory => "Factory"

def callPrefix : Category → String
  | factory => "torch::"
  | _ => "at::"

def moduleName : Category → String
  | neuralNet => "NN"
  | legacy => "TH"
  | native => "Native"
  | factory => "TensorFactories"

def extraIncludes : Category → List String
  | factory => ["<torch/csrc/autograd/generated/variable_factories.h>"]
  | _ => []

end Category

end NativeBindings
