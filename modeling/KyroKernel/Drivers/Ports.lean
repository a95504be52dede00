import KyroKernel.Foundations.Memory

/-!
# I/O ports

`outb`, `inb` and `io_wait` of `kernel/io.c`, for ports that read back the byte last written to
them. The only ports read here are the data ports of the PICs, which do so with their masks.
-/

namespace KyroKernel

open Foundations

/-- The byte last written to each port. -/
abbrev Ports := BitVec 16 → Byte

/-- `outb`. -/
def outb (p : Ports) (port : BitVec 16) (value : Byte) : Ports := Function.update p port value

/-- `inb`. -/
def inb (p : Ports) (port : BitVec 16) : Byte := p port

/-- `io_wait`: a write to an unused port. -/
def ioWait (p : Ports) : Ports := outb p 0x80 0

variable {p : Ports} {port port' : BitVec 16}

@[simp] theorem inb_outb (p : Ports) (port : BitVec 16) (value : Byte) :
    inb (outb p port value) port = value := Function.update_self ..

theorem inb_outb_of_ne (h : port' ≠ port) (value : Byte) :
    inb (outb p port value) port' = inb p port' := Function.update_of_ne h ..

end KyroKernel
