/-!
# Error numbers

The negative results the modelled functions return (`minos/errno.h`).
-/

namespace Minos

inductive Errno
  | eperm
  | enoent
  | eio
  | eagain
  | enomem
  | ebusy
  | einval
  | enospc
  | etimedout
  | eabort
  | eoverflow
  | ebadf
  | efault
  | eacces
  deriving DecidableEq, Repr

/-- The number in the header; a function returns its negation. -/
def Errno.code : Errno → Int
  | .eperm => 1
  | .enoent => 2
  | .eio => 5
  | .ebadf => 9
  | .eagain => 11
  | .enomem => 12
  | .eacces => 13
  | .efault => 14
  | .ebusy => 16
  | .einval => 22
  | .enospc => 28
  | .eoverflow => 75
  | .etimedout => 110
  | .eabort => 134

end Minos
