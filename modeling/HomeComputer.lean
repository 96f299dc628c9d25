import HomeComputer.Word
import HomeComputer.Text.CharacterSet
import HomeComputer.Text.Invisible
import HomeComputer.Text.Extending
import HomeComputer.Text
import HomeComputer.Isa.Format
import HomeComputer.Isa.Operation
import HomeComputer.Isa.Multiply
import HomeComputer.Isa.Extension
import HomeComputer.Assembly
import HomeComputer.Memory.Bus
import HomeComputer.Memory.Access
import HomeComputer.Memory.Transcript
import HomeComputer.Memory.WordMemory
import HomeComputer.Memory.Store
import HomeComputer.Memory.AddressMap
import HomeComputer.Processor.Registers
import HomeComputer.Processor.Trap
import HomeComputer.Processor.Csr
import HomeComputer.Processor.Execute
import HomeComputer.Processor.Hart
import HomeComputer.Queue
import HomeComputer.Devices
import HomeComputer.Fault
import HomeComputer.Elf
import HomeComputer.Control.Breakpoint
import HomeComputer.Control.Controller
import HomeComputer.Machine
import HomeComputer.Remote.Hex
import HomeComputer.Remote.Packet
import HomeComputer.Remote.Command
import HomeComputer.Remote.RegisterCodec
import HomeComputer.Remote.LittleEndian
import HomeComputer.Remote.Server
import HomeComputer.Console.Arguments
import HomeComputer.Console.Session
import HomeComputer.Console.Listing
import HomeComputer.Main
import HomeComputer.Proofs.Processor.Step
import HomeComputer.Proofs.Processor.Exceptions
import HomeComputer.Proofs.Machine.Run
import HomeComputer.Proofs.Isa.Manual
import HomeComputer.Proofs.Isa.Integers
import HomeComputer.Proofs.Processor.BaseInstructions
import HomeComputer.Proofs.Memory.ByteMemory
import HomeComputer.Proofs.Memory.Access
import HomeComputer.Proofs.Memory.Checked
import HomeComputer.Proofs.Processor.LoadsAndStores
import HomeComputer.Proofs.Processor.Interrupts
import HomeComputer.Proofs.Control.Ownership
import HomeComputer.Proofs.Memory.StoreBytes
import HomeComputer.Proofs.Memory.FlatMemory
import HomeComputer.Proofs.Memory.Flattening
import HomeComputer.Proofs.Machine.Memory
import HomeComputer.Proofs.Machine.Presence
import HomeComputer.Proofs.Image.Headers
import HomeComputer.Proofs.Image.Loading
import HomeComputer.Proofs.Image.Placement
import HomeComputer.Proofs.Remote.Framing
import HomeComputer.Proofs.Remote.Dealing
import HomeComputer.Proofs.Remote.Cuts
import HomeComputer.Proofs.Remote.RegisterBytes
import HomeComputer.Proofs.Remote.Steering
import HomeComputer.Proofs.Machine.NewBreakpoints
import HomeComputer.Proofs.Text.Numerals
import HomeComputer.Proofs.Isa.Fields
import HomeComputer.Proofs.Isa.Table
import HomeComputer.Proofs.Isa.Layout
import HomeComputer.Proofs.Assembly.Agreement
import HomeComputer.Proofs.Assembly.Lines
import HomeComputer.Proofs.Assembly.Reading
import HomeComputer.Proofs.Memory.RegionTable
import HomeComputer.Proofs.Machine.Stops
import HomeComputer.Proofs.Remote.StopReplies
import HomeComputer.Proofs.Processor.Destination
import HomeComputer.Proofs.Machine.ZeroRegister
import HomeComputer.Proofs.Memory.Footprint
import HomeComputer.Proofs.Machine.GuestWrites
import HomeComputer.Proofs.Processor.Carrying
import HomeComputer.Proofs.Machine.Alignment
import HomeComputer.Proofs.Processor.Handlers
import HomeComputer.Proofs.Memory.Poking
import HomeComputer.Proofs.Remote.Parts
import HomeComputer.Proofs.Remote.Replies
import HomeComputer.Proofs.Remote.Hexadecimal
import HomeComputer.Proofs.Remote.Spelling
import HomeComputer.Proofs.Remote.Grammar
import HomeComputer.Proofs.Remote.RegisterPackets
import HomeComputer.Proofs.Devices.Channels
import HomeComputer.Proofs.Processor.ControlRegisters
import HomeComputer.Proofs.Processor.ReadBack
import HomeComputer.Proofs.Processor.CsrWrites
import HomeComputer.Proofs.Processor.Masking
import HomeComputer.Proofs.Machine.Keyboard
import HomeComputer.Proofs.Processor.Counters
import HomeComputer.Proofs.Isa.Multiplication
import HomeComputer.Proofs.Processor.MultiplyInstructions
import HomeComputer.Proofs.Processor.InstructionSets
import HomeComputer.Proofs.Remote.Corruption
import HomeComputer.Proofs.Machine.Looking
import HomeComputer.Proofs.Processor.EvenAddresses
import HomeComputer.Proofs.Console.Listing
import HomeComputer.Proofs.Memory.StoreBounds
import HomeComputer.Proofs.Machine.Draining
import HomeComputer.Proofs.Console.Batching
