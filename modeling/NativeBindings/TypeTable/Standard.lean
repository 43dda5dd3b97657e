import NativeBindings.TypeTable

set_option autoImplicit false
set_option relaxedAutoImplicit false

/-!
The table of the types that are supported.
-/

namespace NativeBindings.TypeTable

def standard : TypeTable where
  entries := [
    ⟨"bool", "CBool", .builtin, "b", none⟩,
    ⟨"int64_t", "Int64", .builtin, "l", none⟩,
    ⟨"double", "CDouble", .builtin, "d", none⟩,
    ⟨"void", "()", .builtin, "v", none⟩,
    ⟨"at::ScalarType", "ScalarType", .enumeration, "k", some "type ScalarType = Int8"⟩,
    ⟨"at::Tensor", "Tensor", .handle, "t", some "data Tensor"⟩,
    ⟨"at::Scalar", "Scalar", .handle, "s", some "data Scalar"⟩,
    ⟨"at::Storage", "Storage", .handle, "S", some "data Storage"⟩,
    ⟨"at::Device", "Device", .handle, "D", some "data Device"⟩,
    ⟨"at::Generator", "Generator", .handle, "G", some "data Generator"⟩,
    ⟨"at::TensorOptions", "TensorOptions", .handle, "o", some "data TensorOptions"⟩,
    ⟨"std::vector<at::Tensor>", "TensorList", .handle, "L",
      some "type TensorList = StdVector Tensor"⟩,
    ⟨"std::vector<int64_t>", "IntArray", .handle, "a", some "type IntArray = StdVector Int64"⟩,
    ⟨"std::string", "StdString", .handle, "x", some "data StdString"⟩,
    ⟨"at::Context", "Context", .handle, "C", some "data Context"⟩,
    ⟨"at::ConstQuantizerPtr", "ConstQuantizerPtr", .handle, "Q", some "data ConstQuantizerPtr"⟩,
    ⟨"std::array<bool,2>", "StdArray '(CBool,2)", .array, "A2", none⟩,
    ⟨"std::array<bool,3>", "StdArray '(CBool,3)", .array, "A3", none⟩,
    ⟨"std::array<bool,4>", "StdArray '(CBool,4)", .array, "A4", none⟩,
    ⟨"std::tuple<at::Tensor,at::Tensor>", "StdTuple '(Tensor,Tensor)", .tuple, "T2", none⟩,
    ⟨"std::tuple<at::Tensor,at::Tensor,at::Tensor>", "StdTuple '(Tensor,Tensor,Tensor)", .tuple,
      "T3", none⟩,
    ⟨"std::tuple<at::Tensor,at::Tensor,at::Tensor,at::Tensor>",
      "StdTuple '(Tensor,Tensor,Tensor,Tensor)", .tuple, "T4", none⟩,
    ⟨"std::tuple<at::Tensor,at::Tensor,at::Tensor,at::Tensor,at::Tensor>",
      "StdTuple '(Tensor,Tensor,Tensor,Tensor,Tensor)", .tuple, "T5", none⟩,
    ⟨"std::tuple<at::Tensor,at::Tensor,at::Tensor,std::vector<at::Tensor>>",
      "StdTuple '(Tensor,Tensor,Tensor,TensorList)", .tuple, "Tm1", none⟩,
    ⟨"std::tuple<at::Tensor,at::Tensor,double,int64_t>",
      "StdTuple '(Tensor,Tensor,CDouble,Int64)", .tuple, "Tm2", none⟩]

end NativeBindings.TypeTable
