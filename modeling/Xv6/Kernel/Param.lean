import Xv6.Lib.Bytes

/-!
# Constants of the kernel

The compile-time parameters of `param.h` and `fs.h` that the modelled functions read, under the
names of the source in camel case, for the default build (`PDX_XV6`).
-/

namespace Xv6

/-- `MAXOPBLOCKS`: max # of blocks any FS op writes. -/
def maxOpBlocks : Nat := 10

/-- `LOGSIZE`: max data blocks in on-disk log. -/
def logSize : Nat := maxOpBlocks * 3

/-- `NBUF`: size of disk block cache. -/
def nBuf : Nat := maxOpBlocks * 3

/-- `FSSIZE`: size of file system in blocks. -/
def fsSize : Nat := 2000

/-- `BSIZE`: block size in bytes. -/
def bSize : Nat := 512

/-- The data bytes of one disk block. -/
abbrev Block : Type := Lib.Bytes bSize

/-- A disk, or any other store of blocks, by block number. -/
abbrev Disk : Type := Nat → Block

end Xv6
