/-!
# External routines

The numeric routines an operator may call.  A graph names the ones it needs;
names that are not known are no fault and ask for nothing.
-/

namespace Chronograph

/-- A routine that the emitted code can declare, in the order of declaration. -/
inductive Routine where
  | gemm | gemv | axpy
deriving DecidableEq, Repr

namespace Routine

/-- All routines, in the order in which they are declared. -/
def all : List Routine := [gemm, gemv, axpy]

/-- The name under which a graph asks for a routine. -/
def name : Routine → String
  | gemm => "Gemm"
  | gemv => "Gemv"
  | axpy => "Axpy"

/-- The routine of a name, in that exact spelling. -/
def ofName? (name : String) : Option Routine := all.find? (·.name == name)

/-- What stands after the linkage in a routine's declaration. -/
def signature : Routine → String
  | gemm =>
    "void sgemm_(const char* transa, const char* transb, const int* m, const int* n, "
      ++ "const int* k, const float* alpha, const float* A, const int* lda, const float* B, "
      ++ "const int* ldb, const float* beta, float* C, const int* ldc)"
  | gemv =>
    "void sgemv_(const char* trans, const int* m, const int* n, const float* alpha, "
      ++ "const float* A, const int* lda, const float* X, const int* incx, const float* beta, "
      ++ "float* Y, const int* incy)"
  | axpy =>
    "void saxpy_(const int* n, const float* alpha, const float* x, const int* incx, "
      ++ "float* y, const int* incy)"

theorem ofName?_name (r : Routine) : ofName? r.name = some r := by
  cases r <;> decide

end Routine

end Chronograph
